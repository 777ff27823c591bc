import Mathlib
import LeastSquares.Proofs.Regularity
import LeastSquares.Proofs.Validation

/-! # Linear problems

A linear problem answers `a x - b` with the Jacobian `a`, wherever and whenever it is asked. In
exact arithmetic its linear model is the problem itself, so the denominator of a step that no bound
clips is the whole decrease of the cost.
-/

namespace LeastSquares

open Matrix

variable {α : Type} {m n : Nat}

/-- The problem of bringing `a x` close to `b`. -/
def Problem.linear [Scalar α] (a : Mat α m n) (b : Vector α m) : Problem α n :=
  fun _ x _ => .ok ⟨(minus (a.mulVec x) b).toArray, some (.ofMat a)⟩

/-- The squared length of `a x - b` has no slope at `x`. -/
def Mat.Stationary [Scalar α] (a : Mat α m n) (b : Vector α m) (x : Vector α n) : Prop :=
  ∀ j, (a.transposeMulVec (minus (a.mulVec x) b)).get j = Scalar.zero

namespace Iterate.Answers

variable [Scalar α] {size k : Nat} {a : Mat α m n} {b : Vector α m} {e : Evaluation α}

theorem size_eq_of_linear {jacobian : Mat α size n} {it : Iterate α size n}
    (hit : it.Answers (.linear a b) k e jacobian) : size = m := by
  have hsize := hit.size_eq
  rw [← Except.ok.inj hit.answer_eq] at hsize
  exact hsize.symm.trans (minus (a.mulVec it.point) b).size_toArray

variable {jacobian : Mat α m n} {it : Iterate α m n}

theorem residuals_eq_of_linear (hit : it.Answers (.linear a b) k e jacobian) :
    it.residuals = minus (a.mulVec it.point) b := by
  apply Vector.toArray_inj.mp
  rw [hit.residuals_eq, ← Except.ok.inj hit.answer_eq]

theorem jacobian_eq_of_linear (hit : it.Answers (.linear a b) k e jacobian) : jacobian = a := by
  have hjacobian := hit.jacobian_eq
  rw [← Except.ok.inj hit.answer_eq, Evaluation.jacobianOf_ofMat] at hjacobian
  exact (Except.ok.inj hjacobian).symm

end Iterate.Answers

/-- A solve of a linear problem that has damping to start with comes to its first state. -/
theorem minimize_linear_eq_iterated [Scalar α] {config : Config α} {box : Box α n}
    {damping : Damping α} (a : Mat α m n) (b : Vector α m) (x : Vector α n)
    (hvalid : config.validate n = .ok box)
    (hdamping : Damping.start? config.tau a.gram.diagonal.toList = some damping) :
    minimize config (.linear a b) x =
      .iterated m (.begin (.of x (minus (a.mulVec x) b) a) damping)
        ((config.setting (.linear a b) box).iterate config.maxIterations 1
          (.begin (.of x (minus (a.mulVec x) b) a) damping)) :=
  minimize_eq_iterated hvalid rfl (minus (a.mulVec x) b).size_toArray
    (Evaluation.jacobianOf_ofMat _ a) hdamping

variable [ExactScalar α]

/-- A linear problem with a column that is long enough gives a damping to start with. -/
theorem exists_linear_eq_iterated {config : Config α} {box : Box α n} (a : Mat α m n)
    (b : Vector α m) (x : Vector α n) (hvalid : config.validate n = .ok box) (j : Fin n)
    (hlarge : Scalar.epsilon ≤ config.tau * a.gram.entry j j) :
    ∃ start trail, minimize config (.linear a b) x = .iterated m start trail := by
  have htau : 0 < config.tau := by
    have hpos := ((config.validate_eq_ok_iff n box).mp hvalid).2.1.2
    rwa [Scalar.zero_eq] at hpos
  rw [← Mat.get_diagonal] at hlarge
  obtain ⟨d, hdamping⟩ := Damping.exists_start? htau.le j hlarge
  exact ⟨_, _, minimize_linear_eq_iterated a b x hvalid hdamping⟩

/-- A move changes the residuals by its image. -/
theorem get_residuals_plus (a : Mat α m n) (b : Vector α m) (x move : Vector α n) :
    (minus (a.mulVec (plus x move)) b).get =
      (minus (a.mulVec x) b).get + a.toMatrix *ᵥ move.get := by
  rw [get_minus_eq_sub, get_minus_eq_sub, Mat.get_mulVec, Mat.get_mulVec, get_plus_eq_add,
    mulVec_add]
  abel

/-- The denominator of a damped step is the decrease of the cost over the whole of it. -/
theorem Step.denominator_eq_cost_sub_cost {a : Mat α m n} {b : Vector α m} {x damping : Vector α n}
    {step : Step α n}
    (hstep : damped? a.gram (a.transposeMulVec (minus (a.mulVec x) b)) damping = some step) :
    step.denominator = dot (minus (a.mulVec x) b) (minus (a.mulVec x) b) -
      dot (minus (a.mulVec (plus x step.move)) b) (minus (a.mulVec (plus x step.move)) b) := by
  rw [dot_eq_dotProduct, dot_eq_dotProduct, get_residuals_plus]
  exact denominator_eq_decrease hstep

theorem Mat.stationary_iff (a : Mat α m n) (b : Vector α m) (x : Vector α n) :
    a.Stationary b x ↔ (a.transposeMulVec (minus (a.mulVec x) b)).get = 0 := by
  rw [Stationary, funext_iff, Scalar.zero_eq]
  rfl

end LeastSquares
