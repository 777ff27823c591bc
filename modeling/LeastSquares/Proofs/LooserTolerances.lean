import Mathlib
import LeastSquares.Proofs.Comparison
import LeastSquares.Proofs.LinearDescent
import LeastSquares.Proofs.Prefix

/-! # Solves under two pairs of tolerances

The tolerances decide only after which attempt a solve stops, and looser ones never let it go on
where stricter ones would not. They may give another reason to stop, as a decrease that is too small
is looked at before a change of the parameters that is too small. That the denominator is negligible
is looked at before both, and no tolerance plays a part in it.
-/

namespace LeastSquares

variable {α : Type} [Scalar α] {m n : Nat}

namespace Tolerances

theorem verdict_eq_localMinimum_iff (t : Tolerances α) (denominator rho oldCost cost : α)
    (oldPoint point : List α) :
    t.verdict denominator rho oldCost cost oldPoint point = .stopped .localMinimum ↔
      denominator < Scalar.epsilon := by
  unfold verdict
  constructor
  · intro hverdict
    split at hverdict
    next hnegligible => exact hnegligible
    · split at hverdict
      · split at hverdict
        · cases hverdict
        · split at hverdict
          · cases hverdict
          · cases hverdict
      · cases hverdict
  · intro hnegligible
    rw [if_pos hnegligible]

variable [LawfulOrder α]

/-- Raising the tolerances makes them looser. -/
theorem looser_of_le {loose strict : Tolerances α}
    (hparameters : strict.parameters ≤ loose.parameters)
    (hobjective : strict.objective ≤ loose.objective) : loose.Looser strict := by
  intro denominator rho oldCost cost oldPoint point reason hverdict
  unfold verdict at hverdict ⊢
  by_cases hnegligible : denominator < Scalar.epsilon
  · rw [if_pos hnegligible]
    exact ⟨_, rfl⟩
  rw [if_neg hnegligible] at hverdict ⊢
  by_cases haccepted : Scalar.zero < rho
  · rw [if_pos haccepted] at hverdict ⊢
    by_cases hdecrease : oldCost - cost < loose.objective
    · rw [if_pos hdecrease]
      exact ⟨_, rfl⟩
    -- A decrease that is large enough for the looser tolerance is so for the stricter one.
    have hdecrease' : ¬oldCost - cost < strict.objective :=
      fun hlt => hdecrease (Scalar.lt_of_lt_of_le hlt hobjective)
    rw [if_neg hdecrease'] at hverdict
    rw [if_neg hdecrease]
    split at hverdict
    next hchange =>
      rw [if_pos (Scalar.lt_of_lt_of_le hchange hparameters)]
      exact ⟨_, rfl⟩
    · cases hverdict
  · rw [if_neg haccepted] at hverdict
    cases hverdict

theorem share_looser {parameters objective parameters' objective' : α} (hn : n ≠ 0)
    (hdivision : ∀ a b : α, a ≤ b → a / (n : α) ≤ b / (n : α))
    (hparameters : parameters ≤ parameters') (hobjective : objective ≤ objective') :
    (share parameters' objective' n).Looser (share parameters objective n) := by
  apply looser_of_le
  · rw [share, share, Nat.max_eq_left (Nat.one_le_iff_ne_zero.mpr hn)]
    exact hdivision _ _ hparameters
  · rw [share, share, Nat.max_eq_left (Nat.one_le_iff_ne_zero.mpr hn)]
    exact hdivision _ _ hobjective

end Tolerances

/-- A solve whose denominator becomes negligible stops then under other tolerances too, unless it
has converged before. -/
theorem Trail.Begins.ending_of_localMinimum {c : Setting α n} {loose : Tolerances α} {cap i : Nat}
    {start : State α m n} {part whole : Trail α m n} (hpart : part.Begins whole)
    (hrun : ({ c with tolerances := loose } : Setting α n).Runs cap i start part)
    (hrun' : c.Runs cap i start whole) (hending : whole.ending = .stopped .localMinimum) :
    ∃ reason, part.ending = .stopped reason ∧
      ((reason = .localMinimum ∧ part.attempts.length = whole.attempts.length) ∨
        (reason.converged = true ∧ part.attempts.length < whole.attempts.length)) := by
  obtain ⟨reason, hstopped⟩ : ∃ reason, part.ending = .stopped reason := by
    rcases hpart.ending with hstopped | rfl
    · exact hstopped
    · exact ⟨_, hending⟩
  refine ⟨reason, hstopped, ?_⟩
  rcases Nat.lt_or_ge part.attempts.length whole.attempts.length with hlt | hge
  · have hcap : reason ≠ .iterationCap := by
      rintro rfl
      have hlength := (hrun.length_eq_of_iterationCap hstopped).1
      have hle := hrun'.length_le
      omega
    refine Or.inr ⟨?_, hlt⟩
    cases reason with
    | iterationCap => exact absurd rfl hcap
    | localMinimum => rfl
    | parametersSettled => rfl
    | objectiveSettled => rfl
  · rcases hrun'.stopped_cases hending with ⟨hcap, _⟩ | ⟨k, a, hlength, ha, hverdict⟩
    · cases hcap
    · have ha' := (hpart.attempts_getElem? (by omega)).symm.trans ha
      have hnegligible := (Tolerances.verdict_eq_localMinimum_iff ..).mp hverdict
      obtain ⟨hlength', hstopped'⟩ := hrun.ending_of_verdict ha'
        ((Tolerances.verdict_eq_localMinimum_iff ..).mpr hnegligible)
      cases hstopped.symm.trans hstopped'
      exact Or.inl ⟨rfl, hlength'.symm.trans hlength⟩

/-- The same choices with other tolerances. -/
def Config.withTolerances (config : Config α) (parameters objective : α) : Config α :=
  { config with parameterTolerance := parameters, objectiveTolerance := objective }

section Solve

variable {config : Config α} {problem : Problem α n} {x : Vector α n} {parameters objective : α}

/-- If the stricter of two solves ends at a local minimum, the looser one ends there too or has
converged before. -/
theorem outcome_of_localMinimum
    (hbegins : (minimize (config.withTolerances parameters objective) problem x).Begins
      (minimize config problem x))
    {recordTrace : Bool} {solution : Solution α n}
    (houtcome : (minimize config problem x).outcome recordTrace = .ok solution)
    (hreason : solution.reason = .localMinimum) :
    ∃ solution', (minimize (config.withTolerances parameters objective) problem x).outcome
        recordTrace = .ok solution' ∧
      ((solution'.reason = .localMinimum ∧ solution'.iterations = solution.iterations) ∨
        (solution'.converged = true ∧ solution'.iterations < solution.iterations)) := by
  rcases hbegins.eq_or_iterated with hsame | ⟨m, start, part, whole, hpart, hwhole, htrail⟩
  · rw [hsame]
    exact ⟨solution, houtcome, Or.inl ⟨hreason, rfl⟩⟩
  · obtain ⟨box', _, _, hlaunch', hrun⟩ := exists_launch hpart
    obtain ⟨box, _, _, hlaunch, hrun'⟩ := exists_launch hwhole
    obtain rfl : box = box' :=
      Config.box_eq_of_validate hlaunch.validate_eq hlaunch'.validate_eq rfl
    rcases Course.solution_cases houtcome with
      ⟨_, _, hstationary, _⟩ | ⟨_, _, _, reason, hiterated, hending, rfl⟩
    · rw [hwhole] at hstationary
      cases hstationary
    · cases hwhole.symm.trans hiterated
      obtain rfl : reason = .localMinimum := hreason
      obtain ⟨reason', hstopped, hcases⟩ := htrail.ending_of_localMinimum
        (c := config.setting problem box) hrun hrun' hending
      rw [hpart]
      exact ⟨_, Course.outcome_of_stopped hstopped recordTrace, hcases⟩

end Solve

/-- Of two solves that differ in their tolerances only, the one with the larger ones evaluates the
problem no more often than the other, and shows the beginning of what the other one shows. If the
other one ends at a local minimum, it ends there too, or it has converged before. -/
theorem minimize_prefix_of_tolerance_le [LawfulOrder α] [NumberText α] (config : Config α)
    (problem : Problem α n) (x : Vector α n) {parameters objective : α} {box box' : Box α n}
    (hdivision : ∀ a b : α, a ≤ b → a / (n : α) ≤ b / (n : α))
    (hparameters : config.parameterTolerance ≤ parameters)
    (hobjective : config.objectiveTolerance ≤ objective) (hvalid : config.validate n = .ok box)
    (hvalid' : (config.withTolerances parameters objective).validate n = .ok box') :
    let strict := minimize config problem x
    let loose := minimize (config.withTolerances parameters objective) problem x
    loose.calls.length ≤ strict.calls.length ∧ loose.PrefixOf strict ∧
    ∀ recordTrace solution, strict.outcome recordTrace = .ok solution →
      solution.reason = .localMinimum →
      ∃ solution', loose.outcome recordTrace = .ok solution' ∧
        ((solution'.reason = .localMinimum ∧ solution'.iterations = solution.iterations) ∨
          (solution'.converged = true ∧ solution'.iterations < solution.iterations)) := by
  intro strict loose
  obtain rfl : box = box' := Config.box_eq_of_validate hvalid hvalid' rfl
  have hn : n ≠ 0 := ((config.validate_eq_ok_iff n box).mp hvalid).1
  have hbegins : loose.Begins strict :=
    minimize_begins config _ problem x hvalid hvalid' rfl rfl (Nat.le_refl _)
      (Tolerances.share_looser hn hdivision hparameters hobjective)
  exact ⟨hbegins.calls.length_le, hbegins.prefixOf,
    fun _ _ houtcome hreason => outcome_of_localMinimum hbegins houtcome hreason⟩

/-- From a minimum, a solve without tolerances ends after one attempt, and so does every other one,
unless it ends before. -/
theorem minimize_prefix_of_zero_tolerances :
    let strict : Config ℝ := Config.standard.withTolerances 0 0
    let problem : Problem ℝ 1 := .linear (.ofFn ![![1]]) #v[0]
    ∃ solution, (minimize strict problem #v[0]).outcome false = .ok solution ∧
      solution.reason = .localMinimum ∧ solution.iterations = 1 ∧
      ∃ solution', (minimize (strict.withTolerances 1 1) problem #v[0]).outcome false =
          .ok solution' ∧
        ((solution'.reason = .localMinimum ∧ solution'.iterations = solution.iterations) ∨
          (solution'.converged = true ∧ solution'.iterations < solution.iterations)) := by
  intro strict problem
  let a : Mat ℝ 1 1 := .ofFn ![![1]]
  have hvalid : ∀ tolerance : ℝ, 0 ≤ tolerance →
      (Config.standard.withTolerances tolerance tolerance).validate 1 = .ok ⟨none, none⟩ := by
    intro tolerance htolerance
    have hscale : 0 < (Config.standard : Config ℝ).tau := by simp [Config.standard]
    exact Config.validate_of_signs one_ne_zero hscale htolerance htolerance
      (Bounds.validate_unlimited 1)
  have hlarge : Scalar.epsilon ≤ strict.tau * a.gram.entry 0 0 := by
    rw [Scalar.epsilon_eq]
    norm_num [a, Mat.entry_gram_self, strict, Config.withTolerances, Config.standard]
  have hstationary : a.Stationary #v[0] #v[0] := by
    rw [a.stationary_iff, Mat.get_transposeMulVec, get_minus_eq_sub, Mat.get_mulVec]
    ext i
    simp [Matrix.mulVec, dotProduct, Vector.get]
  obtain ⟨start, trail, hcourse⟩ :=
    exists_linear_eq_iterated a #v[0] #v[0] (hvalid 0 le_rfl) 0 hlarge
  obtain ⟨hlength, hending⟩ := ending_of_stationary_start (by decide)
    (fun hdiagonal => by cases hdiagonal) hcourse hstationary
  have houtcome := (congrArg (Course.outcome false) hcourse).trans
    (Course.outcome_of_stopped hending false)
  -- How numbers are written plays no part here.
  let text : NumberText ℝ := ⟨fun _ => "", fun _ => "", fun _ _ => ""⟩
  obtain ⟨_, _, hminimum⟩ := minimize_prefix_of_tolerance_le strict problem #v[0]
    (fun a b hle => div_le_div_of_nonneg_right hle (Nat.cast_nonneg 1)) zero_le_one zero_le_one
    (hvalid 0 le_rfl) (hvalid 1 zero_le_one)
  exact ⟨_, houtcome, rfl, hlength, hminimum false _ houtcome rfl⟩

end LeastSquares
