import Mathlib
import LeastSquares.Proofs.Clipping

/-! # The membership test

The test pairs the components of a point with the entries of each side, and a component without a
partner passes. So it passes exactly if every component passes for the entries given for it, if any,
and for a point of numbers that is what keeping to the bounds means.
-/

namespace LeastSquares

variable {α : Type} {n : Nat}

open Scalar

/-- A test of components beside a list of limits, which passes what has no limit. -/
theorem all_zipWith_iff {test : α → Option α → Bool} (hfree : ∀ a, test a none = true)
    (l : List α) (side : List (Option α)) :
    (List.zipWith test l side).all id = true ↔
      ∀ (i : Nat) (a : α), l[i]? = some a → test a side[i]?.join = true := by
  induction l generalizing side with
  | nil => simp
  | cons a l ih =>
      cases side with
      | nil => simp [hfree]
      | cons entry side =>
          rw [List.zipWith_cons_cons, List.all_cons, Bool.and_eq_true, ih]
          constructor
          · rintro ⟨hfirst, hrest⟩ i b hb
            cases i with
            | zero =>
                cases hb
                exact hfirst
            | succ i => exact hrest i b hb
          · intro hall
            exact ⟨hall 0 a rfl, fun i => hall (i + 1)⟩

theorem all_zipWith_toList_iff {test : α → Option α → Bool} (hfree : ∀ a, test a none = true)
    (x : Vector α n) (side : List (Option α)) :
    (List.zipWith test x.toList side).all id = true ↔
      ∀ i : Fin n, test (x.get i) side[i.val]?.join = true := by
  rw [all_zipWith_iff hfree]
  constructor
  · intro hall i
    exact hall i (x.get i) (by simp [Vector.get])
  · intro hall i a ha
    obtain ⟨hi, rfl⟩ := List.getElem?_eq_some_iff.mp ha
    rw [Vector.length_toList] at hi
    simpa [Vector.get] using hall ⟨i, hi⟩

variable [Scalar α] {b : Bounds α}

namespace Bounds

theorem reaches_iff {lo : Option α} {x : α} :
    reaches x lo = true ↔ ∀ limit, lo = some limit → isNaN limit = false → limit ≤ x := by
  cases lo with
  | none => simp [reaches]
  | some lo => cases hlo : isNaN lo <;> simp [reaches, hlo]

theorem stays_iff {hi : Option α} {x : α} :
    stays x hi = true ↔ ∀ limit, hi = some limit → isNaN limit = false → x ≤ limit := by
  cases hi with
  | none => simp [stays]
  | some hi => cases hhi : isNaN hi <;> simp [stays, hhi]

/-- Whether a value keeps to both limits that were given for a component. -/
def admits (b : Bounds α) (i : Nat) (x : α) : Bool :=
  reaches x b.lower[i]?.join && stays x b.upper[i]?.join

/-- The test of a point is the test of each of its components. -/
theorem contains_iff (b : Bounds α) (x : Vector α n) :
    b.contains x.toList = true ↔ ∀ i : Fin n, b.admits i (x.get i) = true := by
  unfold contains admits
  simp only [Bool.and_eq_true]
  rw [all_zipWith_toList_iff fun _ => rfl, all_zipWith_toList_iff fun _ => rfl, forall_and]

theorem admits_iff_within {i : Nat} {x : α} (hx : isNaN x = false) :
    b.admits i x = true ↔ Within b.lower[i]?.join b.upper[i]?.join x := by
  unfold admits
  rw [Bool.and_eq_true, reaches_iff, stays_iff]
  constructor
  · rintro ⟨hlower, hupper⟩
    exact ⟨fun limit hlimit hnumber _ => hupper limit hlimit hnumber,
      fun limit hlimit hnumber _ => hlower limit hlimit hnumber⟩
  · intro hwithin
    exact ⟨fun limit hlimit hnumber => hwithin.lower_le limit hlimit hnumber hx,
      fun limit hlimit hnumber => hwithin.le_upper limit hlimit hnumber hx⟩

/-- A point of numbers passes the test exactly if it keeps to the bounds. -/
theorem contains_iff_holds {x : Vector α n} (hx : ∀ i, isNaN (x.get i) = false) :
    b.contains x.toList = true ↔ b.Holds x := by
  rw [contains_iff]
  exact forall_congr' fun i => admits_iff_within (hx i)

end Bounds

end LeastSquares
