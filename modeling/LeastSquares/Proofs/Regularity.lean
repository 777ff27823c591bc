import Mathlib
import LeastSquares.Proofs.Coherence
import LeastSquares.Proofs.Damping
import LeastSquares.Proofs.Step

/-! # Regular states

In exact arithmetic every state of a solve has the normal equations of the Jacobian that was last
accepted, and its damping is positive. So no denominator of a step from it is negative, and whether
there is a step at all is a question of that Jacobian alone: under identity damping there always is
one, under diagonal damping there is none exactly if a column is zero.
-/

namespace LeastSquares

open Matrix

variable {α : Type} [ExactScalar α] {m n : Nat}

/-- A state whose normal equations are those of `jacobian`, under positive damping. -/
structure State.Regular (jacobian : Mat α m n) (s : State α m n) : Prop where
  cost_eq : s.current.cost = dot s.current.residuals s.current.residuals
  gram_eq : s.current.gram = jacobian.gram
  gradient_eq : s.current.gradient = jacobian.transposeMulVec s.current.residuals
  positive : s.damping.Positive

theorem Iterate.Answers.regular {problem : Problem α n} {k : Nat} {e : Evaluation α}
    {jacobian : Mat α m n} {s : State α m n} (hs : s.current.Answers problem k e jacobian)
    (hpositive : s.damping.Positive) : s.Regular jacobian :=
  ⟨hs.cost_eq, hs.gram_eq, hs.gradient_eq, hpositive⟩

/-- Accepted or not, an attempt keeps the damping positive. -/
theorem Attempt.Made.positive {c : Setting α n} {i : Nat} {s : State α m n} {step : Step α n}
    {e : Evaluation α} {a : Attempt α m n} (ha : a.Made c i s step e)
    (hs : s.damping.Positive) : a.next.damping.Positive := by
  rcases ha.decision with ⟨_, _, _, hnext⟩ | ⟨_, hnext⟩
  · rw [hnext]
    exact hs.accept a.ratio
  · rw [hnext]
    exact hs.reject

section Solve

variable {config : Config α} {problem : Problem α n} {x : Vector α n} {start s : State α m n}
  {trail : Trail α m n} {k : Nat}

theorem positive_of_states (hcourse : minimize config problem x = .iterated m start trail)
    (hs : (trail.states start)[k]? = some s) : s.damping.Positive := by
  obtain ⟨box, e, jacobian, hlaunch, hrun⟩ := exists_launch hcourse
  refine hrun.invariant (P := fun _ s => s.damping.Positive) ?_ ?_ hs
  · exact Damping.positive_of_start? hlaunch.damping_eq
  · intro k s a _ _ hattempt hpositive
    obtain ⟨step, e, hmade⟩ := Setting.made_of_attempt hattempt
    exact hmade.positive hpositive

/-- Every state of a solve is regular for the Jacobian of the last accepted call. -/
theorem exists_regular (hcourse : minimize config problem x = .iterated m start trail)
    (hs : (trail.states start)[k]? = some s) :
    ∃ j e jacobian, LastAccepted (minimize config problem x).decisions k j ∧
      s.current.Answers problem j e jacobian ∧ s.Regular jacobian := by
  obtain ⟨j, i, hcoherent⟩ := exists_coherent hcourse hs
  obtain ⟨e, jacobian, hanswers⟩ := hcoherent.current.answers
  rw [hcourse]
  exact ⟨j, e, jacobian, hcoherent.last, hanswers,
    hanswers.regular (positive_of_states hcourse hs)⟩

end Solve

namespace State.Regular

variable {jacobian : Mat α m n} {s : State α m n}

theorem step?_eq (hs : s.Regular jacobian) (style : DampingStyle) :
    s.step? style = Step.damped? jacobian.gram (jacobian.transposeMulVec s.current.residuals)
      (style.vector s.damping.mu jacobian.gram) := by
  rw [step?, hs.gram_eq, hs.gradient_eq]

theorem denominator_nonneg (hs : s.Regular jacobian) {style : DampingStyle} {step : Step α n}
    (hstep : s.step? style = some step) : 0 ≤ step.denominator := by
  rw [hs.step?_eq] at hstep
  exact Step.denominator_nonneg (style.vector_nonneg hs.positive.mu_pos.le jacobian) hstep

/-- Positive damping that no zero column escapes leaves a step. -/
theorem isSome_step? (hs : s.Regular jacobian) {style : DampingStyle}
    (hcolumns : style = .diagonal → ¬jacobian.HasZeroColumn) : (s.step? style).isSome := by
  rw [hs.step?_eq, Option.isSome_iff_exists]
  exact Step.exists_damped? jacobian _ style hs.positive.mu_pos hcolumns

theorem isSome_step?_identity (hs : s.Regular jacobian) : (s.step? .identity).isSome :=
  hs.isSome_step? nofun

/-- Damping by the diagonal leaves no step exactly if some column is zero. -/
theorem step?_diagonal_eq_none_iff (hs : s.Regular jacobian) :
    s.step? .diagonal = none ↔ jacobian.HasZeroColumn := by
  constructor
  · intro hnone
    by_contra hcolumns
    have hsome : (s.step? .diagonal).isSome := hs.isSome_step? fun _ => hcolumns
    rw [hnone] at hsome
    cases hsome
  · rintro ⟨j, hcolumn⟩
    have hdamping : (DampingStyle.diagonal.vector s.damping.mu jacobian.gram).get j = 0 := by
      rw [DampingStyle.get_vector_diagonal, (jacobian.entry_gram_self_eq_zero_iff j).mpr hcolumn,
        mul_zero]
    rw [← Option.not_isSome_iff_eq_none, hs.step?_eq,
      Step.damped?_isSome_iff jacobian.toMatrix_gram_transpose, Mat.toMatrix_gram]
    exact not_positiveDefinite_of_zero_column jacobian hcolumn hdamping

end State.Regular

end LeastSquares
