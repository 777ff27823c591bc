import LeastSquares.Decimal.Binary
import LeastSquares.Decimal.Numeral

/-! # A fixed number of significant digits

The exact value of a double rounded to a given number of significant digits, a half going to the
even neighbour, and written with one digit before the point and a power of ten.
-/

namespace LeastSquares.Decimal

/-- The quotient rounded to the nearest whole number, halves to the even one. -/
def roundDiv (num den : Nat) : Nat :=
  let q := num / den
  match compare (2 * (num % den)) den with
  | .lt => q
  | .gt => q + 1
  | .eq => if q % 2 = 0 then q else q + 1

/-- On a half the even neighbour is taken. -/
theorem roundDiv_half_even {num den : Nat} (h : 2 * (num % den) = den) :
    roundDiv num den % 2 = 0 := by
  simp only [roundDiv, Nat.compare_eq_eq.2 h]
  split <;> omega

/-- A whole power of ten as written after the digits, a plus sign being left out. -/
def plainExponent (e : Int) : Exponent :=
  ⟨if e < 0 then .minus else .bare, digits e.natAbs⟩

/-- A coefficient that ends at the power of ten of its leading digit, as one digit before the point
and the rest after it. -/
def leadingForm (negative : Bool) (ds : List Digit) (e : Int) : Numeral :=
  ⟨negative, ds.take 1, ds.drop 1, some (plainExponent e)⟩

/-- A finite double with `count` significant digits, at least one. -/
def significant (count : Nat) (x : Float) : Numeral :=
  let b := Binary.ofFloat x
  let rest := count - 1
  if b.mantissa = 0 then leadingForm (signBit x) (List.replicate (rest + 1) Digit.zero) 0
  else
    let (num, den) := b.inUnits (b.leading - (rest : Int))
    let c := roundDiv num den
    -- rounding up nines gives one digit more than asked for, a zero at the end
    if c < Nat.pow 10 (rest + 1) then leadingForm (signBit x) (digits c) b.leading
    else leadingForm (signBit x) (digits (c / 10)) (b.leading + 1)

end LeastSquares.Decimal
