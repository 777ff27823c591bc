import LeastSquares.Decimal.Binary

/-! # Shortest decimals

Of all decimals that read back as a given double, the one with the fewest digits, and of those the
nearest. The search goes through the grids of one digit, two digits and so on; on each grid the two
neighbours of the value are the only candidates worth a test.
-/

namespace LeastSquares.Decimal

/-- A decimal `coefficient * 10 ^ power`. -/
structure Scaled where
  coefficient : Nat
  power : Int
deriving DecidableEq, Repr

/-- Which of two equally near neighbours is taken. -/
inductive Tie where
  /-- The one whose last digit is even. -/
  | even
  /-- The larger one. -/
  | up
deriving DecidableEq, Repr

/-- Whether a decimal lies among the reals that round to the double: between the points halfway to
its neighbours, which belong to it exactly if its mantissa is even. -/
def Binary.readsBack (x : Binary) (d : Scaled) : Bool :=
  let low := if x.narrowBelow then 4 * x.mantissa - 1 else 4 * x.mantissa - 2
  let high := 4 * x.mantissa + 2
  let quarter := x.power - 2
  -- the decimal, and a number of quarters of the last place, over a common denominator
  let decimal := d.coefficient * Nat.pow 10 d.power.toNat * Nat.pow 2 (-quarter).toNat
  let scale := Nat.pow 2 quarter.toNat * Nat.pow 10 (-d.power).toNat
  if x.mantissa % 2 = 0 then low * scale ≤ decimal && decimal ≤ high * scale
  else low * scale < decimal && decimal < high * scale

/-- The neighbour of the value on the grid of multiples of `10 ^ e` that reads back, the nearer one
if both do. -/
def Binary.onGrid? (x : Binary) (tie : Tie) (e : Int) : Option Scaled :=
  let (num, den) := x.inUnits e
  let below : Scaled := ⟨num / den, e⟩
  let above : Scaled := ⟨num / den + 1, e⟩
  match x.readsBack below, x.readsBack above with
  | true, false => some below
  | false, true => some above
  | false, false => none
  | true, true =>
    match compare (2 * num) ((2 * (num / den) + 1) * den) with
    | .lt => some below
    | .gt => some above
    | .eq =>
      match tie with
      | .up => some above
      | .even => if num / den % 2 = 0 then some below else some above

def Binary.exact (x : Binary) : Scaled :=
  if 0 ≤ x.power then ⟨x.num, 0⟩ else ⟨x.mantissa * Nat.pow 5 (-x.power).toNat, x.power⟩

/-- Moves trailing zeros of the coefficient into the power. -/
def Scaled.trim (d : Scaled) : Scaled :=
  if h : d.coefficient ≠ 0 ∧ d.coefficient % 10 = 0 then
    Scaled.trim ⟨d.coefficient / 10, d.power + 1⟩
  else d
termination_by d.coefficient
decreasing_by exact Nat.div_lt_self (Nat.pos_of_ne_zero h.1) (by decide)

/-- The shortest decimal that reads back as the double, without trailing zeros. Seventeen digits
are always enough; should they not be, the exact value stands in. -/
def Binary.shortest (x : Binary) (tie : Tie) : Scaled :=
  if x.mantissa = 0 then ⟨0, 0⟩
  else
    let found := (List.range 17).findSome? fun (k : Nat) => x.onGrid? tie (x.leading - (k : Int))
    (found.getD x.exact).trim

end LeastSquares.Decimal
