/-! # Decimal numerals

A numeral as it is written: a sign, digits before and after the point, and perhaps a power of ten.
Two numerals may name one number, and nothing here computes with it.
-/

namespace LeastSquares.Decimal

abbrev Digit := Fin 10

def Digit.zero : Digit := ⟨0, by decide⟩

def Digit.toChar (d : Digit) : Char := Char.ofNat (48 + d.val)

def Digit.ofChar? (c : Char) : Option Digit :=
  if h : 48 ≤ c.toNat ∧ c.toNat < 58 then some ⟨c.toNat - 48, by omega⟩ else none

theorem Digit.ofChar?_toChar (d : Digit) : Digit.ofChar? d.toChar = some d := by
  revert d
  decide

/-- The digits of a number from the leading one; zero has one digit. -/
def digits (n : Nat) : List Digit :=
  if n < 10 then [Fin.ofNat 10 n] else digits (n / 10) ++ [Fin.ofNat 10 n]

/-- The number that digits from the leading one name. -/
def value (ds : List Digit) : Nat := ds.foldl (fun n d => 10 * n + d.val) 0

theorem value_digits (n : Nat) : value (digits n) = n := by
  fun_induction digits n with
  | case1 n h => simp [value, Fin.ofNat]; omega
  | case2 n h ih =>
    simp only [value, List.foldl_append, List.foldl_cons, List.foldl_nil] at ih ⊢
    rw [ih]
    simp only [Fin.ofNat]
    omega

/-- How the sign of a power of ten is written. -/
inductive ExponentSign where
  /-- Not at all, for a power that is not negative. -/
  | bare
  | plus
  | minus
deriving DecidableEq, Repr

/-- A power of ten as written after the digits. -/
structure Exponent where
  sign : ExponentSign
  digits : List Digit
deriving DecidableEq, Repr

structure Numeral where
  negative : Bool
  whole : List Digit
  /-- The digits after the point. Without any there is no point. -/
  fraction : List Digit
  exponent : Option Exponent
deriving DecidableEq, Repr

namespace Numeral

def exponentChars : Option Exponent → List Char
  | none => []
  | some ⟨.bare, ds⟩ => 'e' :: ds.map Digit.toChar
  | some ⟨.plus, ds⟩ => 'e' :: '+' :: ds.map Digit.toChar
  | some ⟨.minus, ds⟩ => 'e' :: '-' :: ds.map Digit.toChar

def chars (n : Numeral) : List Char :=
  (if n.negative then ['-'] else []) ++ n.whole.map Digit.toChar ++
    (if n.fraction.isEmpty then [] else '.' :: n.fraction.map Digit.toChar) ++
    exponentChars n.exponent

def text (n : Numeral) : String := String.ofList n.chars

end Numeral

end LeastSquares.Decimal
