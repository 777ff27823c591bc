import LeastSquares.Decimal.Layout
import LeastSquares.Decimal.Reading

/-! # Numbers in JSON

Only finite numbers have a numeral. A numeral is read as a number unless that number would be too
large. Whole numbers keep a fraction of zero, so that what was written as a number with a fraction
is read as one.
-/

namespace LeastSquares

open Decimal

/-- Numbers that JSON can carry. -/
class JsonNumber (α : Type) where
  toNumeral? : α → Option Numeral
  ofNumeral? : Numeral → Option α

namespace Json

/-- The layout of numbers in JSON: `0.00001`, `1e-6`, `2.0`, `1e+16`. -/
def layout : Layout where
  positional e := -5 ≤ e && e < 16
  wholeFraction := true
  exponentPlus := true
  tie := .even

instance : JsonNumber Float where
  toNumeral? x := if x.isFinite then some (layout.numeral x) else none
  ofNumeral? := Numeral.toFloat?

end Json

end LeastSquares
