import LeastSquares.Decimal.Numeral

/-! # Reading numerals

Numerals in the grammar of JSON are read from characters here, and turned into numbers. Digits are
gathered into a whole number as long as it fits 64 bits; the power of ten is then applied with one
multiplication or division of doubles, after divisions by `10 ^ 308` if it is too low for one.
-/

namespace LeastSquares.Decimal

/-- The largest number that fits 64 bits. -/
def wordMax : Nat := Nat.pow 2 64 - 1

/-- The digits at the front of a list of characters, and what follows them. -/
def takeDigits : List Char → List Digit × List Char
  | [] => ([], [])
  | c :: rest =>
    match Digit.ofChar? c with
    | none => ([], c :: rest)
    | some d => (d :: (takeDigits rest).1, (takeDigits rest).2)

theorem takeDigits_map_toChar (ds : List Digit) (rest : List Char)
    (h : ∀ c ∈ rest.head?, Digit.ofChar? c = none) :
    takeDigits (ds.map Digit.toChar ++ rest) = (ds, rest) := by
  induction ds with
  | nil =>
    cases rest with
    | nil => rfl
    | cons c r => simp [takeDigits, h c (by simp)]
  | cons d ds ih => simp [takeDigits, Digit.ofChar?_toChar, ih]

namespace Numeral

def readFraction? : List Char → Option (List Digit × List Char)
  | '.' :: rest =>
    match takeDigits rest with
    | ([], _) => none
    | found => some found
  | rest => some ([], rest)

def readExponentSign : List Char → ExponentSign × List Char
  | '+' :: rest => (.plus, rest)
  | '-' :: rest => (.minus, rest)
  | rest => (.bare, rest)

def readExponent? : List Char → Option (Option Exponent)
  | [] => some none
  | c :: rest =>
    if c = 'e' ∨ c = 'E' then
      let (sign, rest) := readExponentSign rest
      match takeDigits rest with
      | (d :: ds, []) => some (some ⟨sign, d :: ds⟩)
      | _ => none
    else none

/-- A whole part has a digit, and starts with zero only if that is all of it. -/
def wholeAllowed : List Digit → Bool
  | [] => false
  | [_] => true
  | d :: _ => d ≠ Digit.zero

def readUnsigned? (negative : Bool) (cs : List Char) : Option Numeral := do
  let (whole, rest) := takeDigits cs
  if wholeAllowed whole then
    let (fraction, rest) ← readFraction? rest
    let exponent ← readExponent? rest
    return ⟨negative, whole, fraction, exponent⟩
  else none

/-- The numeral that characters spell, all of them together. -/
def ofChars? : List Char → Option Numeral
  | '-' :: rest => readUnsigned? true rest
  | cs => readUnsigned? false cs

/-- The natural number below `2 ^ 64` that a numeral writes as one. -/
def natural? (n : Numeral) : Option Nat :=
  if n.negative || !n.fraction.isEmpty || n.exponent.isSome then none
  else if value n.whole ≤ wordMax then some (value n.whole) else none

end Numeral

/-- Digits gathered so far: a whole number, the power of ten it is to be scaled by, and whether a
digit has been left out for want of room. -/
structure Gathered where
  significand : Nat
  power : Int
  full : Bool

namespace Gathered

/-- Takes a digit before the point. One that does not fit still counts for the power. -/
def takeWhole (g : Gathered) (d : Digit) : Gathered :=
  if g.full || wordMax < 10 * g.significand + d.val then { g with power := g.power + 1, full := true }
  else { g with significand := 10 * g.significand + d.val }

/-- Takes a digit after the point. One that does not fit counts for nothing. -/
def takeFraction (g : Gathered) (d : Digit) : Gathered :=
  if g.full || wordMax < 10 * g.significand + d.val then { g with full := true }
  else { g with significand := 10 * g.significand + d.val, power := g.power - 1 }

/-- The digits of a numeral. Room is looked for anew after the point. -/
def ofNumeral (n : Numeral) : Gathered :=
  let whole := n.whole.foldl takeWhole ⟨0, 0, false⟩
  n.fraction.foldl takeFraction { whole with full := false }

end Gathered

namespace Numeral

/-- The written power of ten. -/
def power (n : Numeral) : Int :=
  match n.exponent with
  | none => 0
  | some ⟨.minus, ds⟩ => -(value ds : Int)
  | some ⟨_, ds⟩ => value ds

end Numeral

/-- A power of ten that a double can hold. -/
def tenTo (k : Nat) : Float := Float.ofScientific 1 false k

/-- A magnitude scaled by a power of ten. There is none if it becomes too large. -/
def scaleByTen? (f : Float) (power : Int) : Option Float :=
  if power < -308 then
    if f == 0 then some f else scaleByTen? (f / tenTo 308) (power + 308)
  else if power < 0 then some (f / tenTo power.natAbs)
  else if power ≤ 308 then
    let g := f * tenTo power.natAbs
    if g.isInf then none else some g
  else if f == 0 then some f
  else none
termination_by power.natAbs
decreasing_by omega

namespace Numeral

/-- The double that a numeral is read as, unless it is too large for one. -/
def toFloat? (n : Numeral) : Option Float :=
  let g := Gathered.ofNumeral n
  (scaleByTen? (Float.ofNat g.significand) (g.power + n.power)).map fun f =>
    if n.negative then -f else f

end Numeral

end LeastSquares.Decimal
