import LeastSquares.Decimal.Layout

/-! # Numbers in messages and tables

Messages, tables and summaries need numbers as text, and in three forms only.
-/

namespace LeastSquares

class NumberText (α : Type) where
  /-- The fewest digits that identify it, never with a power of ten. -/
  plain : α → String
  /-- The fewest digits that identify it, always with a power of ten. -/
  scientific : α → String
  /-- A given number of significant digits, with a power of ten. -/
  significant : Nat → α → String

instance : NumberText Float where
  plain := Decimal.textOr Decimal.Layout.plain.numeral
  scientific := Decimal.textOr Decimal.Layout.scientific.numeral
  significant count := Decimal.textOr (Decimal.significant count)

end LeastSquares
