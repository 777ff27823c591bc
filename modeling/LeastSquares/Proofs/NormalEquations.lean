import Mathlib
import LeastSquares.Solver
import LeastSquares.Proofs.Step

/-! # Normal equations

In exact arithmetic the Gauss-Newton matrix and the gradient of an iterate hold the products that a
linear model of the residuals knows of: those of two predicted changes, and those of a predicted
change with the residuals. So the matrix is symmetric, its form is nowhere negative, and a zero on
its diagonal stands for a parameter that predicts no change and drops out of the equations.
-/

namespace LeastSquares

open Matrix

variable {α : Type} [ExactScalar α] {m n : Nat}

namespace Mat

theorem entry_gram_comm (a : Mat α m n) (j k : Fin n) : a.gram.entry j k = a.gram.entry k j :=
  congrFun (congrFun a.toMatrix_gram_transpose k) j

section ZeroColumn

variable {a : Mat α m n} {j : Fin n}

theorem entry_gram_eq_zero (hcolumn : ∀ i, a.entry i j = 0) (k : Fin n) :
    a.gram.entry j k = 0 := by
  rw [entry_gram]
  apply Finset.sum_eq_zero
  intro i _
  rw [hcolumn i, zero_mul]

theorem get_transposeMulVec_eq_zero (hcolumn : ∀ i, a.entry i j = 0) (f : Vector α m) :
    (a.transposeMulVec f).get j = 0 := by
  have hrow : a.toMatrixᵀ j = 0 := funext hcolumn
  rw [get_transposeMulVec]
  change a.toMatrixᵀ j ⬝ᵥ f.get = 0
  rw [hrow, zero_dotProduct]

end ZeroColumn

end Mat

/-- The form of the Gauss-Newton matrix takes two moves to the product of the changes they predict,
and the gradient takes a move to the product of its change with the residuals. The matrix is
symmetric and its form nowhere negative. Its diagonal holds the squared lengths of the columns of
the Jacobian, and where one of these is zero, the row, the column and the component of the gradient
are zero too. -/
theorem Iterate.normal_equations_of_jacobian (point : Vector α n) (f : Vector α m)
    (a : Mat α m n) :
    let e := Iterate.of point f a
    e.gram.toMatrix.IsSymm ∧
    (∀ v w : Fin n → α,
      v ⬝ᵥ e.gram.toMatrix *ᵥ w = (a.toMatrix *ᵥ v) ⬝ᵥ (a.toMatrix *ᵥ w)) ∧
    (∀ v : Fin n → α, v ⬝ᵥ e.gradient.get = (a.toMatrix *ᵥ v) ⬝ᵥ f.get) ∧
    (∀ v : Fin n → α, 0 ≤ v ⬝ᵥ e.gram.toMatrix *ᵥ v) ∧
    (∀ j, e.gram.entry j j = ∑ i, a.entry i j ^ 2) ∧
    ∀ j, e.gram.entry j j = 0 →
      (∀ k, e.gram.entry j k = 0 ∧ e.gram.entry k j = 0) ∧ e.gradient.get j = 0 := by
  intro e
  refine ⟨a.toMatrix_gram_transpose, a.gram_form, a.gradient_form f, a.gram_form_nonneg, ?_, ?_⟩
  · intro j
    simp only [sq]
    exact a.entry_gram_self j
  · intro j hzero
    -- A sum of squares is zero only if each of them is, so the whole column is.
    have hcolumn := (a.entry_gram_self_eq_zero_iff j).mp hzero
    refine ⟨fun k => ?_, Mat.get_transposeMulVec_eq_zero hcolumn f⟩
    have hrow := Mat.entry_gram_eq_zero hcolumn k
    exact ⟨hrow, (a.entry_gram_comm k j).trans hrow⟩

/-- A parameter that no residual depends on leaves zeros in its row, its column and the gradient,
beside one that two residuals depend on. -/
theorem Iterate.normal_equations_of_idle_parameter :
    let e : Iterate ℝ 2 2 := .of #v[5, 6] #v[3, 4] (.ofFn ![![0, 1], ![0, 2]])
    e.gram.entry 0 0 = 0 ∧ e.gram.entry 0 1 = 0 ∧ e.gram.entry 1 0 = 0 ∧ e.gradient.get 0 = 0 ∧
      e.gram.entry 1 1 = 5 ∧ e.gradient.get 1 = 11 := by
  intro e
  obtain ⟨_, _, hgradient, _, hdiagonal, hzero⟩ :=
    normal_equations_of_jacobian #v[5, 6] #v[3, 4] (.ofFn ![![0, 1], ![0, 2]] : Mat ℝ 2 2)
  have hidle : e.gram.entry 0 0 = 0 := by
    rw [hdiagonal]
    simp
  have hbusy : e.gram.entry 1 1 = 5 := by
    rw [hdiagonal]
    norm_num
  obtain ⟨hrow, hcomponent⟩ := hzero 0 hidle
  have hother := hgradient ![0, 1]
  refine ⟨hidle, (hrow 1).1, (hrow 1).2, hcomponent, hbusy, ?_⟩
  norm_num [mulVec, dotProduct, Fin.sum_univ_two, Vector.get] at hother
  exact hother

end LeastSquares
