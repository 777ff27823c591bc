import Mathlib
import LeastSquares.Linear.Mat
import LeastSquares.Proofs.Exact

/-! # Matrices in exact arithmetic

A matrix of this library is read as one of Mathlib's, a vector as the function of its components.
In exact arithmetic every operation is then the one of the same name: sums are finite sums, inner
products are dot products, and the matrix of inner products of columns is the transpose times the
matrix. Positive definiteness is stated for the quadratic form alone, over any ordered field.
-/

namespace LeastSquares

open Matrix

variable {α : Type} {m n : Nat}

/-- A matrix as a function of row and column. -/
def Mat.toMatrix (a : Mat α m n) : Matrix (Fin m) (Fin n) α := Matrix.of a.entry

@[simp] theorem Mat.toMatrix_apply (a : Mat α m n) (i : Fin m) (j : Fin n) :
    a.toMatrix i j = a.entry i j :=
  rfl

theorem toList_eq_ofFn (v : Vector α n) : v.toList = List.ofFn v.get := by
  rw [← Vector.toList_ofFn]
  exact congrArg Vector.toList (ext_get fun i => (get_ofFn v.get i).symm)

theorem get_singleton (a : α) : (#v[a]).get = ![a] := by
  ext i
  fin_cases i
  rfl

theorem get_pair (a b : α) : (#v[a, b]).get = ![a, b] := by
  ext i
  fin_cases i
  · rfl
  · rfl

variable [ExactScalar α]

theorem Scalar.sum_toList (v : Vector α n) : sum v.toList = ∑ i, v.get i := by
  rw [sum_eq, toList_eq_ofFn, List.sum_ofFn]

theorem sumOver_eq_sum (f : Fin n → α) : sumOver n f = ∑ i, f i := by
  unfold sumOver
  induction n with
  | zero => simp
  | succ n ih => rw [Fin.foldl_succ_last, Fin.sum_univ_castSucc, ih]

theorem dot_eq_dotProduct (u v : Vector α n) : dot u v = u.get ⬝ᵥ v.get :=
  sumOver_eq_sum _

theorem get_plus_eq_add (u v : Vector α n) : (plus u v).get = u.get + v.get := by
  funext i
  exact get_plus u v i

theorem get_minus_eq_sub (u v : Vector α n) : (minus u v).get = u.get - v.get := by
  funext i
  exact get_minus u v i

theorem get_negated_eq_neg (v : Vector α n) : (negated v).get = -v.get := by
  funext i
  exact get_negated v i

theorem zipWith_sub_toList (u v : Vector α n) :
    List.zipWith (· - ·) u.toList v.toList = (minus u v).toList := by
  rw [← Vector.toList_zipWith]
  apply congrArg Vector.toList
  apply ext_get
  intro i
  rw [get_minus]
  exact Vector.getElem_zipWith i.isLt

namespace Mat

theorem get_mulVec (a : Mat α m n) (v : Vector α n) : (a.mulVec v).get = a.toMatrix *ᵥ v.get := by
  funext i
  rw [mulVec, get_ofFn, dot_eq_dotProduct]
  congr 1
  funext j
  exact get_row a i j

theorem get_transposeMulVec (a : Mat α m n) (v : Vector α m) :
    (a.transposeMulVec v).get = a.toMatrixᵀ *ᵥ v.get := by
  funext j
  rw [transposeMulVec, get_ofFn, dot_eq_dotProduct]
  congr 1
  funext i
  exact get_column a j i

theorem toMatrix_gram (a : Mat α m n) : a.gram.toMatrix = a.toMatrixᵀ * a.toMatrix := by
  ext i j
  rw [toMatrix_apply, gram, entry_ofFn, get_ofFn, get_ofFn, dot_eq_dotProduct, mul_apply]
  simp [dotProduct]

theorem toMatrix_addDiagonal (a : Mat α n n) (d : Vector α n) :
    (a.addDiagonal d).toMatrix = a.toMatrix + Matrix.diagonal d.get := by
  ext i j
  rw [toMatrix_apply, addDiagonal, entry_ofFn, Matrix.add_apply]
  by_cases heq : i = j
  · rw [if_pos heq, heq, diagonal_apply_eq, toMatrix_apply]
  · rw [if_neg heq, diagonal_apply_ne _ heq, add_zero, toMatrix_apply]

end Mat

/-- The quadratic form of a matrix is positive at every vector but zero. -/
def PositiveDefinite (s : Matrix (Fin n) (Fin n) α) : Prop :=
  ∀ v : Fin n → α, v ≠ 0 → 0 < v ⬝ᵥ s *ᵥ v

/-- A vector that is zero has a positive definite form of zero, and no other has. -/
theorem PositiveDefinite.form_eq_zero_iff {s : Matrix (Fin n) (Fin n) α}
    (hs : PositiveDefinite s) (v : Fin n → α) : v ⬝ᵥ s *ᵥ v = 0 ↔ v = 0 := by
  constructor
  · intro hform
    by_contra hv
    exact (hs v hv).ne' hform
  · rintro rfl
    exact zero_dotProduct _

/-- A system with a positive definite matrix has at most one solution. -/
theorem PositiveDefinite.mulVec_injective {s : Matrix (Fin n) (Fin n) α}
    (hs : PositiveDefinite s) : Function.Injective (s *ᵥ ·) := by
  intro v w hvw
  have hzero : s *ᵥ (v - w) = 0 := by
    rw [mulVec_sub]
    exact sub_eq_zero.mpr hvw
  apply sub_eq_zero.mp
  rw [← hs.form_eq_zero_iff, hzero, dotProduct_zero]

/-- The squared length of `a v` is the form of `aᵀ a` at `v`. -/
theorem dotProduct_gram (a : Matrix (Fin m) (Fin n) α) (v w : Fin n → α) :
    v ⬝ᵥ (aᵀ * a) *ᵥ w = (a *ᵥ v) ⬝ᵥ (a *ᵥ w) := by
  rw [← mulVec_mulVec, dotProduct_mulVec, vecMul_transpose]

theorem dotProduct_self_nonneg (v : Fin n → α) : 0 ≤ v ⬝ᵥ v :=
  Finset.sum_nonneg fun i _ => mul_self_nonneg (v i)

theorem sq_dotProduct_le (v w : Fin n → α) : (v ⬝ᵥ w) ^ 2 ≤ (v ⬝ᵥ v) * (w ⬝ᵥ w) := by
  simpa [dotProduct, sq] using Finset.sum_mul_sq_le_sq_mul_sq Finset.univ v w

theorem norm_mul_self (v : Vector α n) : norm v.toList * norm v.toList = v.get ⬝ᵥ v.get := by
  have hsum : Scalar.sum (v.toList.map fun a => a * a) = v.get ⬝ᵥ v.get := by
    rw [← Vector.toList_map, Scalar.sum_toList]
    simp only [get_map]
    rfl
  rw [norm, hsum]
  exact ExactScalar.sqrt_mul_self (dotProduct_self_nonneg v.get)

theorem norm_nonneg (l : List α) : 0 ≤ norm l := ExactScalar.sqrt_nonneg _

/-- The length of a vector is the one number of its square that is not negative. -/
theorem norm_eq_of_mul_self {v : Vector α n} {length : α} (hlength : 0 ≤ length)
    (hsquare : v.get ⬝ᵥ v.get = length * length) : norm v.toList = length := by
  rw [← mul_self_inj (norm_nonneg _) hlength, norm_mul_self, hsquare]

/-- Multiples have multiples of the length. -/
theorem norm_eq_mul {u v : Vector α n} {c : α} (hc : 0 ≤ c) (hget : v.get = c • u.get) :
    norm v.toList = c * norm u.toList := by
  apply norm_eq_of_mul_self (mul_nonneg hc (norm_nonneg _))
  rw [hget, smul_dotProduct, dotProduct_smul, smul_eq_mul, smul_eq_mul, mul_mul_mul_comm,
    norm_mul_self, mul_assoc]

/-- Lengths compare as their squares do. -/
theorem norm_le_norm_iff (u : Vector α m) (v : Vector α n) :
    norm u.toList ≤ norm v.toList ↔ u.get ⬝ᵥ u.get ≤ v.get ⬝ᵥ v.get := by
  rw [← norm_mul_self, ← norm_mul_self]
  exact mul_self_le_mul_self_iff (norm_nonneg _) (norm_nonneg _)

end LeastSquares
