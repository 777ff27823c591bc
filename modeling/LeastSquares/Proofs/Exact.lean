import Mathlib
import LeastSquares.Scalar

/-! # Exact arithmetic

Read over an ordered field with square roots, the definitions of this library compute without
rounding: every value is a number and finite, the larger of two values is their maximum, and a list
sums to its sum. The real numbers are such a field. Division by zero gives zero here, so a quotient
is positive only if its denominator is not zero.
-/

namespace LeastSquares

/-- An ordered field with square roots. -/
class ExactScalar (α : Type) extends Field α, LinearOrder α, IsStrictOrderedRing α where
  sqrt : α → α
  sqrt_nonneg (a : α) : 0 ≤ sqrt a
  sqrt_mul_self {a : α} : 0 ≤ a → sqrt a * sqrt a = a

instance ExactScalar.toScalar {α : Type} [ExactScalar α] : Scalar α where
  sqrt := ExactScalar.sqrt
  abs a := |a|
  isFinite _ := true
  decidableLT := inferInstance
  decidableLE := inferInstance

noncomputable instance : ExactScalar ℝ where
  sqrt := Real.sqrt
  sqrt_nonneg := Real.sqrt_nonneg
  sqrt_mul_self := Real.mul_self_sqrt

namespace Scalar

variable {α : Type} [ExactScalar α]

@[simp] theorem zero_eq : (zero : α) = 0 := Nat.cast_zero

@[simp] theorem one_eq : (one : α) = 1 := Nat.cast_one

@[simp] theorem two_eq : (two : α) = 2 := Nat.cast_two

@[simp] theorem ratio_eq (p q : Nat) : (ratio p q : α) = p / q := rfl

theorem epsilon_eq : (epsilon : α) = 1 / 2 ^ 52 := by
  rw [epsilon, ratio_eq]
  norm_num

theorem epsilon_pos : (0 : α) < epsilon := by
  rw [epsilon_eq]
  positivity

/-- A square root of a positive number is positive. -/
theorem sqrt_pos {a : α} (ha : 0 < a) : 0 < sqrt a := by
  refine lt_of_le_of_ne (ExactScalar.sqrt_nonneg a) ?_
  intro hzero
  have hsquare : sqrt a * sqrt a = a := ExactScalar.sqrt_mul_self ha.le
  rw [← hzero, mul_zero] at hsquare
  exact ha.ne hsquare

theorem sqrt_mul_self {a : α} (ha : 0 < a) : sqrt a * sqrt a = a :=
  ExactScalar.sqrt_mul_self ha.le

@[simp] theorem isFinite_eq_true (a : α) : isFinite a = true := rfl

@[simp] theorem isNaN_eq_false (a : α) : isNaN a = false := by
  simp [isNaN]

@[simp] theorem larger_eq_max (a b : α) : larger a b = max a b := by
  unfold larger
  by_cases hlt : a < b
  · rw [if_pos hlt, max_eq_right hlt.le]
  · rw [if_neg hlt, max_eq_left (not_lt.mp hlt), isNaN_eq_false]
    rfl

@[simp] theorem sum_eq (l : List α) : sum l = l.sum := by
  rw [sum, zero_eq, neg_zero, List.sum_eq_foldl]

/-- The largest of some values is their maximum, since all of them are numbers. -/
theorem largest?_cons (a : α) (l : List α) : largest? (a :: l) = some (l.foldl max a) := by
  rw [largest?, List.foldl_cons, isNaN_eq_false]
  exact List.foldl_hom some fun b c => congrArg some (larger_eq_max b c)

theorem largest?_eq_max? (l : List α) : largest? l = l.max? := by
  cases l with
  | nil => rfl
  | cons a l => rw [largest?_cons, List.max?_cons']

theorem foldl_larger_lt_iff (l : List α) (a b : α) :
    l.foldl larger a < b ↔ a < b ∧ ∀ c ∈ l, c < b := by
  induction l generalizing a with
  | nil => simp
  | cons c l ih =>
      rw [List.foldl_cons, ih, larger_eq_max, max_lt_iff, List.forall_mem_cons, and_assoc]

end Scalar

end LeastSquares
