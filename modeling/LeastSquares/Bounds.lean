import LeastSquares.Fault
import LeastSquares.Linear.Vector

/-! # Bounds

Each parameter may have a lower and an upper limit. A side without entries limits nothing, and an
entry that is absent leaves its component free; so does one that is not a number.

`Bounds` is what a caller writes down. `Box` is what is left when the number of parameters is known:
an optional limit for each component on each side.
-/

namespace LeastSquares

variable {α : Type} {n : Nat}

/-- The limits as given, side by side. -/
structure Bounds (α : Type) where
  lower : List (Option α)
  upper : List (Option α)
deriving DecidableEq, Repr

/-- One side of a box: no limits at all, or a limit or none for each component. -/
abbrev Limits (α : Type) (n : Nat) := Option (Vector (Option α) n)

def Limits.at (limits : Limits α n) (i : Fin n) : Option α :=
  match limits with
  | none => none
  | some entries => entries.get i

structure Box (α : Type) (n : Nat) where
  lower : Limits α n
  upper : Limits α n

variable [Scalar α]

/-- A number as a limit: one that is not a number limits nothing. -/
def limit? (x : α) : Option α := if Scalar.isNaN x then none else some x

namespace Bounds

omit [Scalar α] in
def unlimited : Bounds α := ⟨[], []⟩

def ofEntries (lower upper : List α) : Bounds α := ⟨lower.map limit?, upper.map limit?⟩

/-- Whether a component keeps to its lower limit. -/
def reaches (x : α) : Option α → Bool
  | none => true
  | some lo => Scalar.isNaN lo || decide (lo ≤ x)

/-- Whether a component keeps to its upper limit. -/
def stays (x : α) : Option α → Bool
  | none => true
  | some hi => Scalar.isNaN hi || decide (x ≤ hi)

/-- Whether every component keeps to its limits. Components without a partner count as free. -/
def contains (b : Bounds α) (x : List α) : Bool :=
  (List.zipWith reaches x b.lower).all id && (List.zipWith stays x b.upper).all id

omit [Scalar α] in
/-- One side for `n` components: free if it is empty, and a single limit holds for all. -/
def sideFor? (n : Nat) (side : List (Option α)) : Option (Limits α n) :=
  if side.isEmpty then some none else (spread? n side).map some

omit [Scalar α] in
/-- The limits of `n` components, if both sides fit that number. -/
def box? (b : Bounds α) (n : Nat) : Option (Box α n) := do
  let lower ← sideFor? n b.lower
  let upper ← sideFor? n b.upper
  return ⟨lower, upper⟩

omit [Scalar α] in
/-- One side of the bounds of a problem with `n` parameters. A single entry is not repeated here. -/
def checkedSide (side : Side) (n : Nat) (entries : List (Option α)) :
    Except (Fault α) (Limits α n) :=
  if entries.isEmpty then .ok none
  else if h : entries.toArray.size = n then .ok (some ⟨entries.toArray, h⟩)
  else .error (.limitCount side entries.length n)

end Bounds

namespace Box

/-- The smallest index at which the lower limit exceeds the upper one, as a fault. -/
def crossing? (box : Box α n) : Option (Fault α) :=
  match box.lower, box.upper with
  | some lower, some upper => (List.finRange n).findSome? fun i =>
    match lower.get i, upper.get i with
    | some lo, some hi => if hi < lo then some (.crossedLimits lo hi i) else none
    | _, _ => none
  | _, _ => none

/-- A component brought down to its upper limit. -/
def lowered (hi : Option α) (x : α) : α :=
  match hi with
  | none => x
  | some hi => if hi < x then hi else x

/-- A component brought up to its lower limit. -/
def raised (lo : Option α) (x : α) : α :=
  match lo with
  | none => x
  | some lo => if x < lo then lo else x

/-- The point with every component brought to its limits, the upper ones first. -/
def clip (box : Box α n) (x : Vector α n) : Vector α n :=
  Vector.ofFn fun i => raised (box.lower.at i) (lowered (box.upper.at i) (x.get i))

end Box

namespace Bounds

/-- The limits of a problem with `n` parameters: each side is empty or has `n` entries, and no
lower limit exceeds its upper one. -/
def validate (b : Bounds α) (n : Nat) : Except (Fault α) (Box α n) := do
  let lower ← checkedSide .lower n b.lower
  let upper ← checkedSide .upper n b.upper
  let box : Box α n := ⟨lower, upper⟩
  match box.crossing? with
  | some fault => throw fault
  | none => return box

/-- The clipped point, for bounds whose sides fit its length. -/
def clip? (b : Bounds α) (x : Vector α n) : Option (Vector α n) :=
  (b.box? n).map (·.clip x)

end Bounds

end LeastSquares
