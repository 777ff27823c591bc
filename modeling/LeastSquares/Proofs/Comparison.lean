import Mathlib
import LeastSquares.Proofs.Exact

/-! # Comparisons

What is not a number compares false with everything, and all other values are ordered totally. That
is how doubles compare, and exact arithmetic too, where every value is a number. Values that are
ordered both ways need not be the same: zero has two signs.
-/

namespace LeastSquares

class LawfulOrder (α : Type) [Scalar α] : Prop where
  trans {a b c : α} : a ≤ b → b ≤ c → a ≤ c
  numbers_of_le {a b : α} : a ≤ b → a ≤ a ∧ b ≤ b
  total {a b : α} : a ≤ a → b ≤ b → a ≤ b ∨ b ≤ a
  lt_iff {a b : α} : a < b ↔ a ≤ b ∧ ¬b ≤ a

/-- Comparisons by rank in a linear order are lawful, if what has no rank compares false. -/
theorem LawfulOrder.of_rank {α κ : Type} [Scalar α] [LinearOrder κ] (rank? : α → Option κ)
    (hle : ∀ a b : α, a ≤ b ↔ ∃ p ∈ rank? a, ∃ q ∈ rank? b, p ≤ q)
    (hlt : ∀ a b : α, a < b ↔ ∃ p ∈ rank? a, ∃ q ∈ rank? b, p < q) : LawfulOrder α where
  trans {a b c} hab hbc := by
    obtain ⟨p, hp, q, hq, hpq⟩ := (hle a b).mp hab
    obtain ⟨q', hq', r, hr, hqr⟩ := (hle b c).mp hbc
    obtain rfl := Option.mem_unique hq hq'
    exact (hle a c).mpr ⟨p, hp, r, hr, hpq.trans hqr⟩
  numbers_of_le {a b} hab := by
    obtain ⟨p, hp, q, hq, _⟩ := (hle a b).mp hab
    exact ⟨(hle a a).mpr ⟨p, hp, p, hp, le_rfl⟩, (hle b b).mpr ⟨q, hq, q, hq, le_rfl⟩⟩
  total {a b} ha hb := by
    obtain ⟨p, hp, _⟩ := (hle a a).mp ha
    obtain ⟨q, hq, _⟩ := (hle b b).mp hb
    rcases le_total p q with hpq | hqp
    · exact Or.inl ((hle a b).mpr ⟨p, hp, q, hq, hpq⟩)
    · exact Or.inr ((hle b a).mpr ⟨q, hq, p, hp, hqp⟩)
  lt_iff {a b} := by
    rw [hlt, hle, hle]
    constructor
    · rintro ⟨p, hp, q, hq, hpq⟩
      refine ⟨⟨p, hp, q, hq, hpq.le⟩, ?_⟩
      rintro ⟨q', hq', p', hp', hqp⟩
      obtain rfl := Option.mem_unique hq hq'
      obtain rfl := Option.mem_unique hp hp'
      exact absurd hpq (not_lt.mpr hqp)
    · rintro ⟨⟨p, hp, q, hq, _⟩, hnot⟩
      exact ⟨p, hp, q, hq, lt_of_not_ge fun hqp => hnot ⟨q, hq, p, hp, hqp⟩⟩

instance {α : Type} [ExactScalar α] : LawfulOrder α :=
  .of_rank some (by simp) (by simp)

namespace Double

open Float.Model (UnpackedFloat)

/-- Where a double stands among the others: its kind and sign decide first, then the exponent, then
the mantissa. -/
def rank? : UnpackedFloat → Option (ℤ ×ₗ ℤ ×ₗ ℤ)
  | .notANumber => none
  | .infinity .negative => some (toLex (-2, toLex (0, 0)))
  | .finite .negative mantissa exponent _ => some (toLex (-1, toLex (-exponent, -mantissa)))
  | .zero _ => some (toLex (0, toLex (0, 0)))
  | .finite .positive mantissa exponent _ => some (toLex (1, toLex (exponent, mantissa)))
  | .infinity .positive => some (toLex (2, toLex (0, 0)))

theorem unpack_zero : (Scalar.zero : Float).toModel.unpack = .zero .positive := by
  rfl

theorem isLE_compare_then (e e' : ℤ) (m m' : ℕ) :
    ((compare e e').then (compare m m')).isLE = true ↔ e < e' ∨ e = e' ∧ m ≤ m' := by
  rw [Ordering.isLE_then_iff_or, Nat.isLE_compare, Int.compare_eq_lt, Int.compare_eq_eq]

theorem isGE_compare_then (e e' : ℤ) (m m' : ℕ) :
    ((compare e e').then (compare m m')).isGE = true ↔ e' < e ∨ e = e' ∧ m' ≤ m := by
  rw [← Ordering.isLE_swap, Ordering.swap_then, Int.compare_swap, Nat.compare_swap,
    isLE_compare_then, eq_comm (a := e')]

theorem unpacked_le_iff (a b : UnpackedFloat) :
    a.le b = true ↔ ∃ p ∈ rank? a, ∃ q ∈ rank? b, p ≤ q := by
  rcases a with (_ | _) | _ | s | ⟨_ | _, m, e, hm⟩ <;>
    rcases b with (_ | _) | _ | t | ⟨_ | _, m', e', hm'⟩ <;>
    simp [rank?, UnpackedFloat.le, UnpackedFloat.compare, Prod.Lex.toLex_le_toLex,
      isLE_compare_then, isGE_compare_then]
  all_goals decide

theorem unpacked_lt_iff (a b : UnpackedFloat) :
    a.lt b = true ↔ ∃ p ∈ rank? a, ∃ q ∈ rank? b, p < q := by
  rcases a with (_ | _) | _ | s | ⟨_ | _, m, e, hm⟩ <;>
    rcases b with (_ | _) | _ | t | ⟨_ | _, m', e', hm'⟩ <;>
    simp [rank?, UnpackedFloat.lt, UnpackedFloat.compare, Prod.Lex.toLex_lt_toLex,
      Ordering.then_eq_lt, Ordering.then_eq_gt, compare_lt_iff_lt, compare_gt_iff_gt]
  all_goals decide

theorem le_iff (a b : Float) : a ≤ b ↔
    ∃ p ∈ rank? a.toModel.unpack, ∃ q ∈ rank? b.toModel.unpack, p ≤ q := by
  rw [← unpacked_le_iff]
  exact decide_eq_true_iff

theorem lt_iff (a b : Float) : a < b ↔
    ∃ p ∈ rank? a.toModel.unpack, ∃ q ∈ rank? b.toModel.unpack, p < q := by
  rw [← unpacked_lt_iff]
  exact decide_eq_true_iff

end Double

instance : LawfulOrder Float := .of_rank _ Double.le_iff Double.lt_iff

namespace Scalar

variable {α : Type} [Scalar α] {a b : α}

theorem isNaN_eq_false_iff : isNaN a = false ↔ a ≤ a := by
  simp [isNaN]

variable [LawfulOrder α]

theorem isNaN_eq_false_of_le (hle : a ≤ b) : isNaN a = false ∧ isNaN b = false := by
  rw [isNaN_eq_false_iff, isNaN_eq_false_iff]
  exact LawfulOrder.numbers_of_le hle

/-- Numbers are compared either way. -/
theorem le_of_not_lt (ha : isNaN a = false) (hb : isNaN b = false) (hlt : ¬a < b) : b ≤ a := by
  rw [isNaN_eq_false_iff] at ha hb
  rcases LawfulOrder.total ha hb with hab | hba
  · by_contra hba
    exact hlt (LawfulOrder.lt_iff.mpr ⟨hab, hba⟩)
  · exact hba

theorem le_of_lt (hlt : a < b) : a ≤ b := (LawfulOrder.lt_iff.mp hlt).1

theorem lt_of_lt_of_le {c : α} (hlt : a < b) (hle : b ≤ c) : a < c := by
  obtain ⟨hab, hnot⟩ := LawfulOrder.lt_iff.mp hlt
  exact LawfulOrder.lt_iff.mpr
    ⟨LawfulOrder.trans hab hle, fun hca => hnot (LawfulOrder.trans hle hca)⟩

theorem lt_of_le_of_lt {c : α} (hle : a ≤ b) (hlt : b < c) : a < c := by
  obtain ⟨hbc, hnot⟩ := LawfulOrder.lt_iff.mp hlt
  exact LawfulOrder.lt_iff.mpr
    ⟨LawfulOrder.trans hle hbc, fun hca => hnot (LawfulOrder.trans hca hle)⟩

end Scalar

end LeastSquares
