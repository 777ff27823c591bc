import Mathlib
import LeastSquares.Damping
import LeastSquares.Step
import LeastSquares.Proofs.Linear.Cholesky

/-! # Damped steps in exact arithmetic

A step solves the damped normal equations, whatever triangle was used on the way. Its denominator
is then the decrease that the linear model of the residuals predicts: a square and twice the damping
form, so it is never negative, and it vanishes only where the gradient does. A step exists whenever
the damping is positive, and for damping by the diagonal exactly if no column is zero.
-/

namespace LeastSquares

open Matrix

variable {α : Type} {m n : Nat}

/-- Some column has nothing but zeros. -/
def Mat.HasZeroColumn [Zero α] (a : Mat α m n) : Prop := ∃ j, ∀ i, a.entry i j = 0

variable [ExactScalar α]

namespace Mat

theorem toMatrix_gram_transpose (a : Mat α m n) : a.gram.toMatrixᵀ = a.gram.toMatrix := by
  rw [toMatrix_gram, transpose_mul, transpose_transpose]

theorem entry_gram (a : Mat α m n) (j k : Fin n) :
    a.gram.entry j k = ∑ i, a.entry i j * a.entry i k := by
  rw [← toMatrix_apply, toMatrix_gram, mul_apply]
  rfl

/-- The diagonal entry of a column is its squared length. -/
theorem entry_gram_self (a : Mat α m n) (j : Fin n) :
    a.gram.entry j j = ∑ i, a.entry i j * a.entry i j :=
  a.entry_gram j j

theorem entry_gram_self_nonneg (a : Mat α m n) (j : Fin n) : 0 ≤ a.gram.entry j j := by
  rw [entry_gram_self]
  exact Finset.sum_nonneg fun i _ => mul_self_nonneg _

theorem entry_gram_self_eq_zero_iff (a : Mat α m n) (j : Fin n) :
    a.gram.entry j j = 0 ↔ ∀ i, a.entry i j = 0 := by
  rw [entry_gram_self, Finset.sum_eq_zero_iff_of_nonneg fun i _ => mul_self_nonneg _]
  simp

theorem entry_gram_self_pos {a : Mat α m n} (ha : ¬a.HasZeroColumn) (j : Fin n) :
    0 < a.gram.entry j j := by
  apply (a.entry_gram_self_nonneg j).lt_of_ne'
  intro hzero
  exact ha ⟨j, (a.entry_gram_self_eq_zero_iff j).mp hzero⟩

/-- The form of the Gauss-Newton matrix multiplies the changes that two moves predict. -/
theorem gram_form (a : Mat α m n) (v w : Fin n → α) :
    v ⬝ᵥ a.gram.toMatrix *ᵥ w = (a.toMatrix *ᵥ v) ⬝ᵥ (a.toMatrix *ᵥ w) := by
  rw [toMatrix_gram, dotProduct_gram]

theorem gram_form_nonneg (a : Mat α m n) (v : Fin n → α) : 0 ≤ v ⬝ᵥ a.gram.toMatrix *ᵥ v := by
  rw [gram_form]
  exact dotProduct_self_nonneg _

/-- The gradient pairs with a move as the residuals pair with the change it predicts. -/
theorem gradient_form (a : Mat α m n) (f : Vector α m) (v : Fin n → α) :
    v ⬝ᵥ (a.transposeMulVec f).get = (a.toMatrix *ᵥ v) ⬝ᵥ f.get := by
  rw [get_transposeMulVec, dotProduct_transpose_mulVec, dotProduct_comm]

/-- Damping keeps a symmetric matrix symmetric, so the factorization sees all of it. -/
theorem mirrored_addDiagonal {s : Mat α n n} (hs : s.toMatrixᵀ = s.toMatrix) (d : Vector α n) :
    (s.addDiagonal d).mirrored = s.toMatrix + Matrix.diagonal d.get := by
  have hsymm : (s.addDiagonal d).toMatrixᵀ = (s.addDiagonal d).toMatrix := by
    rw [toMatrix_addDiagonal, transpose_add, hs, diagonal_transpose]
  rw [mirrored_eq_toMatrix hsymm, toMatrix_addDiagonal]

end Mat

namespace DampingStyle

theorem vector_nonneg (style : DampingStyle) {mu : α} (hmu : 0 ≤ mu) (jacobian : Mat α m n)
    (i : Fin n) : 0 ≤ (style.vector mu jacobian.gram).get i := by
  cases style with
  | identity =>
      rw [get_vector_identity]
      exact hmu
  | diagonal =>
      rw [get_vector_diagonal]
      exact mul_nonneg hmu (jacobian.entry_gram_self_nonneg i)

theorem vector_pos {style : DampingStyle} {mu : α} (hmu : 0 < mu) {jacobian : Mat α m n}
    (hcolumns : style = .diagonal → ¬jacobian.HasZeroColumn) (i : Fin n) :
    0 < (style.vector mu jacobian.gram).get i := by
  cases style with
  | identity =>
      rw [get_vector_identity]
      exact hmu
  | diagonal =>
      rw [get_vector_diagonal]
      exact mul_pos hmu (Mat.entry_gram_self_pos (hcolumns rfl) i)

end DampingStyle

theorem form_add_diagonal (s : Matrix (Fin n) (Fin n) α) (d v : Fin n → α) :
    v ⬝ᵥ (s + diagonal d) *ᵥ v = v ⬝ᵥ s *ᵥ v + ∑ i, d i * (v i * v i) := by
  rw [add_mulVec, dotProduct_add]
  congr 1
  apply Finset.sum_congr rfl
  intro i _
  rw [mulVec_diagonal]
  ring

theorem diagonal_form_nonneg {d : Fin n → α} (hd : ∀ i, 0 ≤ d i) (v : Fin n → α) :
    0 ≤ ∑ i, d i * (v i * v i) :=
  Finset.sum_nonneg fun i _ => mul_nonneg (hd i) (mul_self_nonneg (v i))

/-- Any positive damping makes a matrix of inner products positive definite. -/
theorem positiveDefinite_gram_add_diagonal (a : Matrix (Fin m) (Fin n) α) {d : Fin n → α}
    (hd : ∀ i, 0 < d i) : PositiveDefinite (aᵀ * a + diagonal d) := by
  intro v hv
  obtain ⟨j, hj⟩ := Function.ne_iff.mp hv
  rw [form_add_diagonal, dotProduct_gram]
  have hdamping : 0 < ∑ i, d i * (v i * v i) := by
    apply Finset.sum_pos'
    · intro i _
      exact mul_nonneg (hd i).le (mul_self_nonneg _)
    · exact ⟨j, Finset.mem_univ j, mul_pos (hd j) (mul_self_pos.mpr hj)⟩
  exact add_pos_of_nonneg_of_pos (dotProduct_self_nonneg _) hdamping

/-- A column of zeros stays one under damping by the diagonal. -/
theorem not_positiveDefinite_of_zero_column (a : Mat α m n) {d : Fin n → α} {j : Fin n}
    (hcolumn : ∀ i, a.entry i j = 0) (hd : d j = 0) :
    ¬PositiveDefinite (a.toMatrixᵀ * a.toMatrix + diagonal d) := by
  intro hpos
  -- The form of the damped matrix vanishes at the unit vector of the column.
  have hne : (Pi.single j 1 : Fin n → α) ≠ 0 := by
    intro hzero
    exact one_ne_zero ((Pi.single_eq_same j 1).symm.trans (congrFun hzero j))
  have hform := hpos _ hne
  have hproduct : a.toMatrix *ᵥ Pi.single j 1 = 0 := by
    funext i
    rw [mulVec_single_one]
    exact hcolumn i
  rw [form_add_diagonal, dotProduct_gram, hproduct, zero_dotProduct, zero_add] at hform
  have hsum : ∑ i, d i * ((Pi.single j 1 : Fin n → α) i * (Pi.single j 1 : Fin n → α) i) = 0 := by
    apply Finset.sum_eq_zero
    intro i _
    by_cases heq : i = j
    · rw [heq, hd, zero_mul]
    · rw [Pi.single_eq_of_ne heq, zero_mul, mul_zero]
  exact hform.ne' hsum

namespace Step

theorem gainDenominator_eq (h d g : Vector α n) :
    gainDenominator h.toList d.toList g.toList = h.get ⬝ᵥ (d.get * h.get - g.get) := by
  rw [gainDenominator, ← Vector.toList_zip, ← Vector.toList_zip, ← Vector.toList_map,
    Scalar.sum_toList]
  apply Finset.sum_congr rfl
  intro i _
  simp [Vector.get]

theorem damped?_isSome_iff {gram : Mat α n n} (hgram : gram.toMatrixᵀ = gram.toMatrix)
    (gradient damping : Vector α n) :
    (damped? gram gradient damping).isSome ↔
      PositiveDefinite (gram.toMatrix + diagonal damping.get) := by
  rw [damped?, Option.isSome_map, Mat.solve?_isSome_iff, Mat.mirrored_addDiagonal hgram]

/-- The move solves the damped normal equations. -/
theorem normal_equations {gram : Mat α n n} (hgram : gram.toMatrixᵀ = gram.toMatrix)
    {gradient damping : Vector α n} {step : Step α n}
    (hstep : damped? gram gradient damping = some step) :
    (gram.toMatrix + diagonal damping.get) *ᵥ step.move.get = -gradient.get := by
  obtain ⟨h, hsolve, rfl⟩ := Option.map_eq_some_iff.mp hstep
  have hsolved := Mat.mirrored_mulVec_of_solve? hsolve
  rw [Mat.mirrored_addDiagonal hgram, get_negated_eq_neg] at hsolved
  exact hsolved

/-- Where there is a step, the damped matrix is positive definite. -/
theorem positiveDefinite_of_step {gram : Mat α n n} (hgram : gram.toMatrixᵀ = gram.toMatrix)
    {gradient damping : Vector α n} {step : Step α n}
    (hstep : damped? gram gradient damping = some step) :
    PositiveDefinite (gram.toMatrix + diagonal damping.get) := by
  rw [← damped?_isSome_iff hgram gradient, hstep]
  rfl

/-- The move is all that solves the damped normal equations. -/
theorem move_eq_of_equations {gram : Mat α n n} (hgram : gram.toMatrixᵀ = gram.toMatrix)
    {gradient damping : Vector α n} {step : Step α n}
    (hstep : damped? gram gradient damping = some step) {v : Fin n → α}
    (hv : (gram.toMatrix + diagonal damping.get) *ᵥ v = -gradient.get) : step.move.get = v := by
  apply (positiveDefinite_of_step hgram hstep).mulVec_injective
  exact (normal_equations hgram hstep).trans hv.symm

theorem denominator_eq {gram : Mat α n n} {gradient damping : Vector α n} {step : Step α n}
    (hstep : damped? gram gradient damping = some step) :
    step.denominator = step.move.get ⬝ᵥ (damping.get * step.move.get - gradient.get) := by
  obtain ⟨h, _, rfl⟩ := Option.map_eq_some_iff.mp hstep
  exact gainDenominator_eq h damping gradient

/-- Positive damping that no zero column escapes leaves a step. -/
theorem exists_damped? (a : Mat α m n) (f : Vector α m) (style : DampingStyle) {mu : α}
    (hmu : 0 < mu) (hcolumns : style = .diagonal → ¬a.HasZeroColumn) :
    ∃ step, damped? a.gram (a.transposeMulVec f) (style.vector mu a.gram) = some step := by
  rw [← Option.isSome_iff_exists, damped?_isSome_iff a.toMatrix_gram_transpose, Mat.toMatrix_gram]
  exact positiveDefinite_gram_add_diagonal _ (DampingStyle.vector_pos hmu hcolumns)

section Residuals

variable {a : Mat α m n} {f : Vector α m} {damping : Vector α n} {step : Step α n}

/-- The normal equations, paired with the move itself. -/
theorem paired_equations (hstep : damped? a.gram (a.transposeMulVec f) damping = some step) :
    (a.toMatrix *ᵥ step.move.get) ⬝ᵥ (a.toMatrix *ᵥ step.move.get) +
        ∑ i, damping.get i * (step.move.get i * step.move.get i) =
      -(step.move.get ⬝ᵥ (a.transposeMulVec f).get) := by
  rw [← a.gram_form, ← form_add_diagonal, normal_equations a.toMatrix_gram_transpose hstep,
    dotProduct_neg]

/-- The denominator is the squared length of the predicted change plus twice the damping form. -/
theorem denominator_eq_sq_add
    (hstep : damped? a.gram (a.transposeMulVec f) damping = some step) :
    step.denominator = (a.toMatrix *ᵥ step.move.get) ⬝ᵥ (a.toMatrix *ᵥ step.move.get) +
      2 * ∑ i, damping.get i * (step.move.get i * step.move.get i) := by
  have hdamping : step.move.get ⬝ᵥ (damping.get * step.move.get) =
      ∑ i, damping.get i * (step.move.get i * step.move.get i) := by
    apply Finset.sum_congr rfl
    intro i _
    rw [Pi.mul_apply]
    ring
  have hpaired := paired_equations hstep
  rw [denominator_eq hstep, dotProduct_sub, hdamping]
  linear_combination -hpaired

/-- The denominator is the decrease of the squared length of the residuals that their linear model
predicts for the move. -/
theorem denominator_eq_decrease
    (hstep : damped? a.gram (a.transposeMulVec f) damping = some step) :
    step.denominator = f.get ⬝ᵥ f.get -
      (f.get + a.toMatrix *ᵥ step.move.get) ⬝ᵥ (f.get + a.toMatrix *ᵥ step.move.get) := by
  have hpaired := paired_equations hstep
  rw [a.gradient_form] at hpaired
  rw [denominator_eq_sq_add hstep, add_dotProduct, dotProduct_add, dotProduct_add,
    dotProduct_comm f.get (a.toMatrix *ᵥ step.move.get)]
  linear_combination 2 * hpaired

theorem denominator_nonneg (hdamping : ∀ i, 0 ≤ damping.get i)
    (hstep : damped? a.gram (a.transposeMulVec f) damping = some step) :
    0 ≤ step.denominator := by
  rw [denominator_eq_sq_add hstep]
  exact add_nonneg (dotProduct_self_nonneg _)
    (mul_nonneg zero_le_two (diagonal_form_nonneg hdamping _))

/-- Only a zero gradient leaves the point in place. -/
theorem move_eq_zero_iff (hstep : damped? a.gram (a.transposeMulVec f) damping = some step) :
    step.move.get = 0 ↔ (a.transposeMulVec f).get = 0 := by
  have hequations := normal_equations a.toMatrix_gram_transpose hstep
  constructor
  · intro hzero
    rw [hzero, mulVec_zero] at hequations
    exact neg_eq_zero.mp hequations.symm
  · intro hzero
    rw [← (positiveDefinite_of_step a.toMatrix_gram_transpose hstep).form_eq_zero_iff, hequations,
      hzero, neg_zero, dotProduct_zero]

/-- A step has a denominator of zero only where there is nothing to descend. -/
theorem denominator_eq_zero_iff (hdamping : ∀ i, 0 ≤ damping.get i)
    (hstep : damped? a.gram (a.transposeMulVec f) damping = some step) :
    step.denominator = 0 ↔ (a.transposeMulVec f).get = 0 := by
  rw [← move_eq_zero_iff hstep, denominator_eq_sq_add hstep]
  constructor
  · intro hzero
    -- Neither term is negative, so both are zero, and with them the form of the damped matrix.
    have hsquare := dotProduct_self_nonneg (a.toMatrix *ᵥ step.move.get)
    have hform := diagonal_form_nonneg hdamping step.move.get
    rw [← (positiveDefinite_of_step a.toMatrix_gram_transpose hstep).form_eq_zero_iff,
      form_add_diagonal, a.gram_form]
    linarith
  · intro hzero
    rw [hzero, mulVec_zero]
    simp

end Residuals

end Step

end LeastSquares
