/-! # Doubles as exact numbers

The magnitude of a finite double is a natural number times a power of two. This module takes the
bits apart and compares such a magnitude with decimals, in exact arithmetic.
-/

namespace LeastSquares.Decimal

/-- The magnitude `mantissa * 2 ^ power` of a finite double. -/
structure Binary where
  mantissa : Nat
  power : Int
  /-- Whether the gap to the next smaller double is half the gap to the next larger one. -/
  narrowBelow : Bool
deriving DecidableEq, Repr

namespace Binary

/-- The magnitude in the bits of a double. Only finite doubles have one. -/
def ofBits (b : UInt64) : Binary :=
  let biased := ((b >>> 52) &&& 0x7FF).toNat
  let stored := (b &&& 0xFFFFFFFFFFFFF).toNat
  if biased = 0 then ⟨stored, -1074, false⟩
  else ⟨Nat.pow 2 52 + stored, (biased : Int) - 1075, stored = 0 && 1 < biased⟩

def ofFloat (x : Float) : Binary := ofBits x.toBits

/-- The numerator of the magnitude as a fraction. -/
def num (x : Binary) : Nat := x.mantissa * Nat.pow 2 x.power.toNat

/-- The denominator of the magnitude as a fraction. -/
def den (x : Binary) : Nat := Nat.pow 2 (-x.power).toNat

/-- Whether `10 ^ e` is at most the magnitude. -/
def atLeastTenTo (x : Binary) (e : Int) : Bool :=
  Nat.pow 10 e.toNat * x.den ≤ x.num * Nat.pow 10 (-e).toNat

/-- The power of ten of the leading digit, for a magnitude that is not zero. The binary logarithm
gives it up to one, and two comparisons settle it. -/
def leading (x : Binary) : Int :=
  let guess := Int.fdiv (((x.mantissa.log2 : Int) + x.power) * 30103) 100000
  if x.atLeastTenTo (guess + 1) then guess + 1
  else if x.atLeastTenTo guess then guess
  else guess - 1

/-- The magnitude in units of `10 ^ e`, as a numerator and a denominator. -/
def inUnits (x : Binary) (e : Int) : Nat × Nat :=
  (x.num * Nat.pow 10 (-e).toNat, x.den * Nat.pow 10 e.toNat)

end Binary

/-- Whether the sign bit of a double is set, that of a zero or of an infinity included. -/
def signBit (x : Float) : Bool := x.toBits >>> 63 == 1

end LeastSquares.Decimal
