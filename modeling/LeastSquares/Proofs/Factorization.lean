import Mathlib
import LeastSquares.Proofs.LinearProblem

/-! # When a factorization fails

In exact arithmetic a solve under identity damping never meets a matrix that it cannot factor,
whatever Jacobians the problem answers. Under diagonal damping an iteration fails in the
factorization exactly if the Jacobian of the last accepted point has a column of zeros.
-/

namespace LeastSquares

variable {α : Type} [ExactScalar α] {m n : Nat}

section Solve

variable {config : Config α} {problem : Problem α n} {x : Vector α n} {start s : State α m n}
  {trail : Trail α m n} {k : Nat}

/-- Where a solve goes on, it fails in the factorization exactly if there is no step. -/
theorem singular_iff_of_goesOn (hcourse : minimize config problem x = .iterated m start trail)
    (hs : (trail.states start)[k]? = some s)
    (hon : trail.GoesOn config.maxIterations
      (.share config.parameterTolerance config.objectiveTolerance n) k) :
    (k = trail.attempts.length ∧ trail.ending = .singular) ↔ s.step? config.damping = none := by
  obtain ⟨box, _, _, _, hrun⟩ := exists_launch hcourse
  have hnone := (config.setting problem box).attempt_eq_singular_iff (k + 1) s
  change _ ↔ s.step? (config.setting problem box).style = none
  rw [← hnone]
  -- Either attempt `k` was carried through, so it is not the end, or it is how the solve ended.
  rcases hrun.attempt_of_goesOn hs hon with ⟨a, ha, hattempt⟩ | ⟨hlength, hfailed⟩
  · rw [hattempt]
    constructor
    · rintro ⟨rfl, _⟩
      rw [List.getElem?_eq_none (Nat.le_refl _)] at ha
      cases ha
    · intro hsingular
      cases hsingular
  · rw [hfailed]
    constructor
    · rintro ⟨_, hending⟩
      rw [hending]
    · intro hsingular
      exact ⟨hlength, Except.error.inj hsingular⟩

/-- A solve that fails in the factorization had gone on to an attempt and found no step. -/
theorem step?_eq_none_of_singular (hcourse : minimize config problem x = .iterated m start trail)
    (hending : trail.ending = .singular) : (trail.last start).step? config.damping = none := by
  obtain ⟨_, _, _, _, hrun⟩ := exists_launch hcourse
  have hon := hrun.goesOn_of_not_stopped (fun reason hstopped => by
    rw [hending] at hstopped
    cases hstopped)
  exact (singular_iff_of_goesOn hcourse (trail.last_eq start) hon).mp ⟨rfl, hending⟩

end Solve

/-- Under identity damping no solve fails in a factorization. Under diagonal damping an iteration
that is begun fails in it exactly if the Jacobian of the last accepted call has a zero column. -/
theorem singular_iff_hasZeroColumn (config : Config α) (problem : Problem α n) (x : Vector α n)
    (m : Nat) (start : State α m n) (trail : Trail α m n) :
    minimize config problem x = .iterated m start trail →
      (config.damping = .identity → trail.ending ≠ .singular) ∧
      (config.damping = .diagonal → ∀ (k : Nat) (s : State α m n),
        (trail.states start)[k]? = some s →
        trail.GoesOn config.maxIterations
          (.share config.parameterTolerance config.objectiveTolerance n) k →
        ∃ j e jacobian, LastAccepted (minimize config problem x).decisions k j ∧
          s.current.Answers problem j e jacobian ∧
          ((k = trail.attempts.length ∧ trail.ending = .singular) ↔ jacobian.HasZeroColumn)) ∧
      (trail.ending = .singular → ∀ recordTrace,
        (minimize config problem x).outcome recordTrace = .error (.notPositiveDefinite n)) := by
  intro hcourse
  refine ⟨?_, ?_, ?_⟩
  · intro hidentity hending
    obtain ⟨_, _, jacobian, _, _, hregular⟩ := exists_regular hcourse (trail.last_eq start)
    have hsome := hregular.isSome_step?_identity
    rw [← hidentity, step?_eq_none_of_singular hcourse hending] at hsome
    cases hsome
  · intro hdiagonal k s hs hon
    obtain ⟨j, e, jacobian, hlast, hanswers, hregular⟩ := exists_regular hcourse hs
    refine ⟨j, e, jacobian, hlast, hanswers, ?_⟩
    rw [singular_iff_of_goesOn hcourse hs hon, hdiagonal]
    exact hregular.step?_diagonal_eq_none_iff
  · intro hending recordTrace
    rw [hcourse]
    exact Course.outcome_of_singular hending recordTrace

/-- A parameter that no residual depends on makes damping by the diagonal fail at once. -/
theorem singular_of_idle_parameter :
    ∃ (start : State ℝ 1 2) (trail : Trail ℝ 1 2),
      minimize { Config.standard with damping := .diagonal }
        (.linear (.ofFn ![![1, 0]]) #v[0]) #v[1, 1] = .iterated 1 start trail ∧
      trail.attempts = [] ∧ trail.ending = .singular := by
  let a : Mat ℝ 1 2 := .ofFn ![![1, 0]]
  have hlarge : Scalar.epsilon ≤ (Config.standard : Config ℝ).tau * a.gram.entry 0 0 := by
    rw [Scalar.epsilon_eq]
    norm_num [a, Mat.entry_gram_self, Config.standard]
  obtain ⟨start, trail, hcourse⟩ := exists_linear_eq_iterated a #v[0] #v[1, 1]
    (Config.validate_standard .diagonal two_ne_zero) 0 hlarge
  obtain ⟨_, hdiagonal, _⟩ := singular_iff_hasZeroColumn _ _ _ _ _ _ hcourse
  obtain ⟨_, _, _, _, hanswers, hiff⟩ :=
    hdiagonal rfl 0 start (trail.states_zero start) (trail.goesOn_zero (by decide) _)
  rw [hanswers.jacobian_eq_of_linear] at hiff
  have hcolumn : a.HasZeroColumn := ⟨1, fun i => by simp [a]⟩
  obtain ⟨hlength, hending⟩ := hiff.mpr hcolumn
  exact ⟨_, _, hcourse, List.length_eq_zero_iff.mp hlength.symm, hending⟩

end LeastSquares
