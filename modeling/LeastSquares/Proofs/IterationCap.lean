import Mathlib
import LeastSquares.Proofs.Prefix

/-! # Solves under two caps

The cap on iterations decides only when a solve is broken off. Under a higher cap a solve does the
same as long as the lower one lasts, and if it has come to an end by then, whether it stopped or
failed, a higher cap makes no difference. The arithmetic is arbitrary.
-/

namespace LeastSquares

variable {α : Type} [Scalar α] {m n : Nat}

/-- A trail that was not broken off at the cap is all there is under any other cap. -/
theorem Trail.Begins.eq_of_not_capped {c : Setting α n} {cap cap' i : Nat} {start : State α m n}
    {part whole : Trail α m n} (hpart : part.Begins whole) (hrun : c.Runs cap i start part)
    (hrun' : c.Runs cap' i start whole) (hending : part.ending ≠ .stopped .iterationCap) :
    part = whole := by
  rcases hpart.ending with ⟨reason, hstopped⟩ | rfl
  · rcases hrun.stopped_cases hstopped with ⟨rfl, _⟩ | ⟨k, a, hlength, ha, hverdict⟩
    · exact absurd hstopped hending
    · -- The attempt that ended the one trail is in the other, and ends it too.
      have ha' := (hpart.attempts_getElem? (by omega)).trans ha
      obtain ⟨hlength', hstopped'⟩ := hrun'.ending_of_verdict ha' hverdict
      exact hpart.eq_of_length (hlength.symm.trans hlength') (hstopped.trans hstopped'.symm)
  · rfl

section Solve

variable (config : Config α) (problem : Problem α n) (x : Vector α n) {cap cap' : Nat}

theorem minimize_begins_of_cap_le (hcap : cap ≤ cap') :
    (minimize { config with maxIterations := cap } problem x).Begins
      (minimize { config with maxIterations := cap' } problem x) := by
  cases hvalid : config.validate n with
  | error fault =>
      have hinvalid : ∀ k, minimize { config with maxIterations := k } problem x =
          .invalid fault := fun _ => minimize_eq_invalid_iff.mpr hvalid
      rw [hinvalid cap, hinvalid cap']
      exact .same _
  | ok box =>
      exact minimize_begins { config with maxIterations := cap' }
        { config with maxIterations := cap } problem x hvalid hvalid rfl rfl hcap (.refl _)

variable {config problem x}

/-- A solve that stopped for another reason than the cap is the same under a higher cap. -/
theorem minimize_eq_of_not_capped (hcap : cap ≤ cap') {recordTrace : Bool}
    {solution : Solution α n}
    (houtcome : (minimize { config with maxIterations := cap } problem x).outcome recordTrace =
      .ok solution)
    (hreason : solution.reason ≠ .iterationCap) :
    minimize { config with maxIterations := cap } problem x =
      minimize { config with maxIterations := cap' } problem x := by
  rcases (minimize_begins_of_cap_le config problem x hcap).eq_or_iterated with
    hsame | ⟨m, start, part, whole, hpart, hwhole, htrail⟩
  · exact hsame
  · obtain ⟨box, _, _, hlaunch, hrun⟩ := exists_launch hpart
    obtain ⟨box', _, _, hlaunch', hrun'⟩ := exists_launch hwhole
    obtain rfl : box = box' :=
      Except.ok.inj (hlaunch.validate_eq.symm.trans hlaunch'.validate_eq)
    have hending : part.ending ≠ .stopped .iterationCap := by
      intro hcapped
      rw [hpart, Course.outcome_of_stopped hcapped] at houtcome
      cases houtcome
      exact hreason rfl
    rw [hpart, hwhole, htrail.eq_of_not_capped (c := config.setting problem box) hrun hrun' hending]

/-- A solve that stops at the cap made as many attempts. -/
theorem length_records_of_capped {recordTrace : Bool} {solution : Solution α n}
    (houtcome : (minimize config problem x).outcome recordTrace = .ok solution)
    (hreason : solution.reason = .iterationCap) :
    solution.iterations = config.maxIterations ∧
      (minimize config problem x).records.length = config.maxIterations := by
  rcases Course.solution_cases houtcome with
    ⟨m, it, _, rfl⟩ | ⟨m, start, trail, reason, hcourse, hending, rfl⟩
  · cases hreason
  · obtain ⟨box, _, _, _, hrun⟩ := exists_launch hcourse
    obtain rfl : reason = .iterationCap := hreason
    have hlength := (hrun.length_eq_of_iterationCap hending).1
    refine ⟨hlength, ?_⟩
    rw [hcourse, Course.records, Trail.length_records, hlength]

end Solve

/-- Of two solves that differ in their caps only, the one with the lower cap shows the beginning of
what the other one shows. If it stops for another reason than the cap, or fails, the other one ends
in the same way. If it stops at the cap, it made as many attempts, and the other one made no
fewer. -/
theorem minimize_prefix_of_cap_le [NumberText α] (config : Config α) (problem : Problem α n)
    (x : Vector α n) {cap cap' : Nat} (hcap : cap ≤ cap') :
    let part := minimize { config with maxIterations := cap } problem x
    let whole := minimize { config with maxIterations := cap' } problem x
    part.PrefixOf whole ∧
    (∀ recordTrace solution, part.outcome recordTrace = .ok solution →
      solution.reason ≠ .iterationCap → whole.outcome recordTrace = .ok solution) ∧
    (∀ recordTrace fault, part.outcome recordTrace = .error fault →
      whole.outcome recordTrace = .error fault) ∧
    ∀ recordTrace solution, part.outcome recordTrace = .ok solution →
      solution.reason = .iterationCap →
      solution.iterations = cap ∧ part.records.length = cap ∧ cap ≤ whole.records.length := by
  intro part whole
  have hbegins : part.Begins whole := minimize_begins_of_cap_le config problem x hcap
  refine ⟨hbegins.prefixOf, ?_, ?_, ?_⟩
  · intro recordTrace solution houtcome hreason
    have hsame : part = whole := minimize_eq_of_not_capped hcap houtcome hreason
    rw [← hsame]
    exact houtcome
  · intro recordTrace fault houtcome
    rw [← hbegins.outcome_of_error houtcome]
    exact houtcome
  · intro recordTrace solution houtcome hreason
    obtain ⟨hiterations, hlength⟩ := length_records_of_capped houtcome hreason
    have hle := hbegins.records.length_le
    rw [hlength] at hle
    exact ⟨hiterations, hlength, hle⟩

/-- Whoever allows two iterations sees what one iteration would have shown, and one attempt more. -/
theorem minimize_prefix_one_of_two :
    let problem : Problem Float 1 := fun k _ _ =>
      .ok ⟨#[if k = 0 then 1.0 else if k = 1 then 2.0 else 0.5], some (.ofMat (.ofFn ![![1.0]]))⟩
    let part := minimize { Config.standard with maxIterations := 1 } problem #v[3.0]
    let whole := minimize { Config.standard with maxIterations := 2 } problem #v[3.0]
    1 ≤ 2 ∧ part.PrefixOf whole ∧ part.records.length = 1 ∧ whole.records.length = 2 := by
  intro problem part whole
  have hpart : part.records.length = 1 := by decide +kernel +revert
  have hwhole : whole.records.length = 2 := by decide +kernel +revert
  have hle : 1 ≤ 2 := by decide
  obtain ⟨hshown, _⟩ := minimize_prefix_of_cap_le Config.standard problem #v[3.0] hle
  exact ⟨hle, hshown, hpart, hwhole⟩

end LeastSquares
