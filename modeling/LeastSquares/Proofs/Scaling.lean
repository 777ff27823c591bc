import Mathlib
import LeastSquares.Proofs.Step

/-! # Other units

Damping by the diagonal follows the units of the parameters, and those of the residuals. In exact
arithmetic other units multiply rows, columns and right hand side of the damped equations, so the
pivots of the factorization change, but the same move solves the equations, in its new units, and
positive definiteness is kept. The predicted decrease depends on the units of the residuals alone.
-/

namespace LeastSquares

open Matrix

variable {α : Type} [ExactScalar α] {m n : Nat}

/-- Every component multiplied by `s`. -/
def scaled (s : α) (v : Vector α n) : Vector α n := .ofFn fun i => s * v.get i

namespace Mat

/-- Every entry multiplied by `s`. -/
def scale (a : Mat α m n) (s : α) : Mat α m n := .ofFn fun i j => s * a.entry i j

/-- The columns multiplied by the entries of a diagonal matrix. -/
def scaleColumns (a : Mat α m n) (units : Vector α n) : Mat α m n :=
  .ofFn fun i j => a.entry i j * units.get j

theorem toMatrix_scale (a : Mat α m n) (s : α) : (a.scale s).toMatrix = s • a.toMatrix := by
  ext i j
  exact entry_ofFn ..

theorem toMatrix_scaleColumns (a : Mat α m n) (units : Vector α n) :
    (a.scaleColumns units).toMatrix = a.toMatrix * Matrix.diagonal units.get := by
  ext i j
  rw [mul_diagonal]
  exact entry_ofFn ..

end Mat

theorem get_scaled (s : α) (v : Vector α n) : (scaled s v).get = s • v.get := by
  funext i
  exact get_ofFn ..

/-- The normal equations with the parameters in other units, all multiplied by one factor. -/
structure Rescaled (factor : α) (units : Fin n → α) (gram gram' : Mat α n n)
    (gradient gradient' : Vector α n) : Prop where
  gram_eq : gram'.toMatrix = factor • (diagonal units * gram.toMatrix * diagonal units)
  gradient_eq : gradient'.get = factor • (diagonal units *ᵥ gradient.get)

theorem rescaled_scaleColumns (a : Mat α m n) (units : Vector α n) (f : Vector α m) :
    Rescaled 1 units.get a.gram (a.scaleColumns units).gram (a.transposeMulVec f)
      ((a.scaleColumns units).transposeMulVec f) where
  gram_eq := by
    rw [Mat.toMatrix_gram, Mat.toMatrix_gram, Mat.toMatrix_scaleColumns, transpose_mul,
      diagonal_transpose, one_smul]
    simp only [Matrix.mul_assoc]
  gradient_eq := by
    rw [Mat.get_transposeMulVec, Mat.get_transposeMulVec, Mat.toMatrix_scaleColumns,
      transpose_mul, diagonal_transpose, one_smul, mulVec_mulVec]

theorem rescaled_scale (a : Mat α m n) (s : α) (f : Vector α m) :
    Rescaled (s ^ 2) (fun _ => 1) a.gram (a.scale s).gram (a.transposeMulVec f)
      ((a.scale s).transposeMulVec (scaled s f)) where
  gram_eq := by
    rw [Mat.toMatrix_gram, Mat.toMatrix_gram, Mat.toMatrix_scale, transpose_smul,
      Matrix.smul_mul, Matrix.mul_smul, smul_smul, ← sq, diagonal_one, Matrix.one_mul,
      Matrix.mul_one]
  gradient_eq := by
    rw [Mat.get_transposeMulVec, Mat.get_transposeMulVec, Mat.toMatrix_scale, get_scaled,
      transpose_smul, smul_mulVec, mulVec_smul, smul_smul, ← sq, diagonal_one, one_mulVec]

namespace Rescaled

variable {factor mu : α} {units : Fin n → α} {gradient gradient' : Vector α n}
  {gram gram' : Mat α n n} {step step' : Step α n}

section Damping

variable (h : Rescaled factor units gram gram' gradient gradient')

include h

theorem transpose_gram (hgram : gram.toMatrixᵀ = gram.toMatrix) :
    gram'.toMatrixᵀ = gram'.toMatrix := by
  rw [h.gram_eq, transpose_smul, transpose_mul, transpose_mul, diagonal_transpose, hgram,
    Matrix.mul_assoc]

/-- The damping follows the units, as the diagonal does. -/
theorem get_vector (mu : α) (i : Fin n) :
    (DampingStyle.diagonal.vector mu gram').get i =
      factor * (units i * (DampingStyle.diagonal.vector mu gram).get i * units i) := by
  rw [DampingStyle.get_vector_diagonal, DampingStyle.get_vector_diagonal, ← Mat.toMatrix_apply,
    h.gram_eq, Matrix.smul_apply, mul_diagonal, diagonal_mul, Mat.toMatrix_apply, smul_eq_mul]
  ring

theorem damped_eq (mu : α) :
    gram'.toMatrix + diagonal (DampingStyle.diagonal.vector mu gram').get =
      factor • (diagonal units *
        (gram.toMatrix + diagonal (DampingStyle.diagonal.vector mu gram).get) *
        diagonal units) := by
  have hdiagonal : diagonal (DampingStyle.diagonal.vector mu gram').get =
      factor • (diagonal units * diagonal (DampingStyle.diagonal.vector mu gram).get *
        diagonal units) := by
    rw [diagonal_mul_diagonal, diagonal_mul_diagonal, ← diagonal_smul]
    congr 1
    funext i
    exact h.get_vector mu i
  rw [hdiagonal, h.gram_eq, ← smul_add, ← Matrix.add_mul, ← Matrix.mul_add]

end Damping

/-- Other units lead from a positive definite form to the same form at another vector. -/
theorem positiveDefinite (hfactor : 0 < factor) (hunits : ∀ i, units i ≠ 0)
    {s : Matrix (Fin n) (Fin n) α} (hs : PositiveDefinite s) :
    PositiveDefinite (factor • (diagonal units * s * diagonal units)) := by
  intro v hv
  have hne : diagonal units *ᵥ v ≠ 0 := by
    intro hzero
    apply hv
    funext i
    have hentry := congrFun hzero i
    rw [mulVec_diagonal] at hentry
    exact (mul_eq_zero_iff_left (hunits i)).mp hentry
  have hform : v ⬝ᵥ (factor • (diagonal units * s * diagonal units)) *ᵥ v =
      factor * ((diagonal units *ᵥ v) ⬝ᵥ s *ᵥ (diagonal units *ᵥ v)) := by
    rw [smul_mulVec, dotProduct_smul, ← mulVec_mulVec, ← mulVec_mulVec, dotProduct_mulVec,
      ← mulVec_transpose, diagonal_transpose, smul_eq_mul]
  rw [hform]
  exact mul_pos hfactor (hs _ hne)

section Step

variable (hgram : gram.toMatrixᵀ = gram.toMatrix)
  (h : Rescaled factor units gram gram' gradient gradient') (hunits : ∀ i, units i ≠ 0)
  (hstep : Step.damped? gram gradient (DampingStyle.diagonal.vector mu gram) = some step)
  (hstep' : Step.damped? gram' gradient' (DampingStyle.diagonal.vector mu gram') = some step')

include hgram h hunits hstep hstep'

/-- The move in the new units solves the equations in the new units, and nothing else does. -/
theorem move_eq : step'.move.get = step.move.get / units := by
  apply Step.move_eq_of_equations (h.transpose_gram hgram) hstep'
  have hmove : diagonal units *ᵥ (step.move.get / units) = step.move.get := by
    funext i
    rw [mulVec_diagonal, Pi.div_apply, mul_div_cancel₀ _ (hunits i)]
  rw [h.damped_eq, smul_mulVec, ← mulVec_mulVec, hmove, ← mulVec_mulVec,
    Step.normal_equations hgram hstep, h.gradient_eq, mulVec_neg, smul_neg]

theorem denominator_eq : step'.denominator = factor * step.denominator := by
  rw [Step.denominator_eq hstep', Step.denominator_eq hstep, h.move_eq hgram hunits hstep hstep',
    h.gradient_eq, dotProduct, dotProduct, Finset.mul_sum]
  apply Finset.sum_congr rfl
  intro i _
  simp only [Pi.div_apply, Pi.sub_apply, Pi.mul_apply, Pi.smul_apply, h.get_vector,
    mulVec_diagonal, smul_eq_mul]
  field_simp [hunits i]

end Step

theorem exists_step (hgram : gram.toMatrixᵀ = gram.toMatrix)
    (h : Rescaled factor units gram gram' gradient gradient') (hfactor : 0 < factor)
    (hunits : ∀ i, units i ≠ 0)
    (hstep : Step.damped? gram gradient (DampingStyle.diagonal.vector mu gram) = some step) :
    ∃ step', Step.damped? gram' gradient' (DampingStyle.diagonal.vector mu gram') = some step' ∧
      step'.move.get = step.move.get / units ∧ step'.denominator = factor * step.denominator := by
  have hpositive := positiveDefinite hfactor hunits (Step.positiveDefinite_of_step hgram hstep)
  rw [← h.damped_eq, ← Step.damped?_isSome_iff (h.transpose_gram hgram) gradient'] at hpositive
  obtain ⟨step', hstep'⟩ := Option.isSome_iff_exists.mp hpositive
  exact ⟨step', hstep', h.move_eq hgram hunits hstep hstep',
    h.denominator_eq hgram hunits hstep hstep'⟩

end Rescaled

/-- With damping by the diagonal and no column of zeros there is a step, whatever the units of the
parameters. Another unit divides its component of the move and leaves the denominator as it is.
Other units of the residuals leave the move as it is and multiply the denominator by their
square. -/
theorem diagonal_damping_follows_units (a : Mat α m n) (f : Vector α m) (mu : α) (hmu : 0 < mu)
    (ha : ¬a.HasZeroColumn) :
    ∃ step,
      Step.damped? a.gram (a.transposeMulVec f) (DampingStyle.diagonal.vector mu a.gram) =
        some step ∧
      (∀ units : Vector α n, (∀ j, units.get j ≠ 0) →
        ∃ step',
          Step.damped? (a.scaleColumns units).gram ((a.scaleColumns units).transposeMulVec f)
            (DampingStyle.diagonal.vector mu (a.scaleColumns units).gram) = some step' ∧
          (∀ j, step'.move.get j = step.move.get j / units.get j) ∧
          step'.denominator = step.denominator) ∧
      ∀ s, s ≠ 0 →
        ∃ step',
          Step.damped? (a.scale s).gram ((a.scale s).transposeMulVec (scaled s f))
            (DampingStyle.diagonal.vector mu (a.scale s).gram) = some step' ∧
          step'.move = step.move ∧ step'.denominator = s ^ 2 * step.denominator := by
  obtain ⟨step, hstep⟩ := Step.exists_damped? a f .diagonal hmu fun _ => ha
  refine ⟨step, hstep, ?_, ?_⟩
  · intro units hunits
    obtain ⟨step', hstep', hmove, hdenominator⟩ :=
      (rescaled_scaleColumns a units f).exists_step a.toMatrix_gram_transpose one_pos hunits hstep
    rw [one_mul] at hdenominator
    exact ⟨step', hstep', congrFun hmove, hdenominator⟩
  · intro s hs
    obtain ⟨step', hstep', hmove, hdenominator⟩ :=
      (rescaled_scale a s f).exists_step a.toMatrix_gram_transpose (sq_pos_iff.mpr hs)
        (fun _ => one_ne_zero) hstep
    refine ⟨step', hstep', ext_get fun i => ?_, hdenominator⟩
    rw [hmove, Pi.div_apply, div_one]

/-- Two equal columns, the second one in a unit with the other sign. -/
theorem diagonal_damping_follows_units_of_equal_columns :
    let a : Mat ℝ 2 2 := .ofFn ![![1, 1], ![2, 2]]
    let b := a.scaleColumns #v[2, -1 / 2]
    ∃ step step',
      Step.damped? a.gram (a.transposeMulVec #v[1, 0]) (DampingStyle.diagonal.vector 1 a.gram) =
        some step ∧
      Step.damped? b.gram (b.transposeMulVec #v[1, 0]) (DampingStyle.diagonal.vector 1 b.gram) =
        some step' ∧
      step.move.get = ![-1 / 15, -1 / 15] ∧ step'.move.get = ![-1 / 30, 2 / 15] ∧
      step'.denominator = step.denominator := by
  intro a b
  have ha : ¬a.HasZeroColumn := by
    rintro ⟨j, hcolumn⟩
    have hentry := hcolumn 0
    fin_cases j <;> simp [a] at hentry
  have hunits : ∀ j, (#v[2, -1 / 2] : Vector ℝ 2).get j ≠ 0 := by
    intro j
    fin_cases j <;> simp [Vector.get]
  obtain ⟨step, hstep, hscaled, _⟩ :=
    diagonal_damping_follows_units a #v[1, 0] 1 one_pos ha
  obtain ⟨step', hstep', hmove', hdenominator⟩ := hscaled #v[2, -1 / 2] hunits
  have hdamping : (DampingStyle.diagonal.vector 1 a.gram).get = ![5, 5] := by
    funext i
    rw [DampingStyle.get_vector_diagonal, one_mul, Mat.entry_gram_self]
    fin_cases i <;> norm_num [a]
  have hmove : step.move.get = ![-1 / 15, -1 / 15] := by
    apply Step.move_eq_of_equations a.toMatrix_gram_transpose hstep
    rw [Mat.toMatrix_gram, Mat.get_transposeMulVec, hdamping]
    funext i
    fin_cases i <;> norm_num [a, mulVec, dotProduct, mul_apply, Vector.get]
  refine ⟨step, step', hstep, hstep', hmove, ?_, hdenominator⟩
  funext j
  rw [hmove', hmove]
  fin_cases j <;> norm_num [Vector.get]

end LeastSquares
