/-!
# Scalars

The arithmetic that everything numerical in this library is written in. A definition over `Scalar`
fixes which operations happen and in which order, and leaves open what a number is: run with
doubles it rounds after every operation, read over an ordered field with square roots it is exact.

Comparisons are the type's own, so a value that is not a number compares false with everything. No
order axioms are asked for here; a statement that needs them takes them as assumptions.
-/

namespace LeastSquares

/-- Numbers to compute with: the four operations, square roots, magnitudes and comparisons. -/
class Scalar (α : Type) extends Add α, Sub α, Mul α, Div α, Neg α, NatCast α, LT α, LE α where
  sqrt : α → α
  abs : α → α
  /-- Whether the value is a number and not infinite. -/
  isFinite : α → Bool
  decidableLT : DecidableLT α
  decidableLE : DecidableLE α

attribute [reducible, instance] Scalar.decidableLT Scalar.decidableLE

namespace Scalar

variable {α : Type} [Scalar α]

def zero : α := ((0 : Nat) : α)

def one : α := ((1 : Nat) : α)

def two : α := ((2 : Nat) : α)

def ratio (p q : Nat) : α := (p : α) / (q : α)

/-- The gap between one and the next double, `2 ^ -52`: what the stopping rules call negligible. -/
def epsilon : α := ratio 1 (Nat.pow 2 52)

/-- What the maximum of no numbers is: minus one over zero, which lies below every number if the
arithmetic has infinities. -/
def bottom : α := -(one / zero)

/-- A value that is not even at most itself is not a number. -/
def isNaN (a : α) : Bool := !decide (a ≤ a)

/-- The larger of two values. One that is not a number gives way to the other; of two values that
are equal it is the first. -/
def larger (a b : α) : α :=
  if a < b then b else if isNaN a then b else a

/-- The sum from left to right. It starts from negative zero, which no addition can be told from
not adding at all. -/
def sum (l : List α) : α := l.foldl (· + ·) (-zero)

/-- The largest of the values that are numbers, if there is one. -/
def largest? (l : List α) : Option α :=
  l.foldl (fun found a =>
    match found with
    | none => if isNaN a then none else some a
    | some b => some (larger b a)) none

end Scalar

/-- Doubles, with one rounding after each operation. -/
instance : Scalar Float where
  natCast := Float.ofNat
  sqrt := Float.sqrt
  abs := Float.abs
  isFinite := Float.isFinite
  decidableLT := Float.decLt
  decidableLE := Float.decLe

end LeastSquares
