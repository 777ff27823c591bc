import LeastSquares.Decimal.Numeral

/-! # JSON values

Values as a text spells them: numbers are numerals, strings keep their escaped code units, and
objects keep every member in its place. What a numeral or a string stands for is a question of its
own, which a value that is only passed over never raises.
-/

namespace LeastSquares

/-- A part of a string: a character, or a sixteen-bit unit written as an escape. -/
inductive Piece where
  | char (c : Char)
  | unit (u : Nat)
deriving DecidableEq, Repr

/-- A string as it is spelled. -/
abbrev Spelling := List Piece

namespace Spelling

def ofString (s : String) : Spelling := s.toList.map .char

/-- The first half of a pair of units. -/
def isHigh (u : Nat) : Bool := 0xD800 ≤ u && u < 0xDC00

/-- The second half of a pair of units. -/
def isLow (u : Nat) : Bool := 0xDC00 ≤ u && u < 0xE000

/-- The characters that a spelling names. There are none if a half of a pair stands alone. -/
def chars? : Spelling → Option (List Char)
  | [] => some []
  | .char c :: rest => (chars? rest).map (c :: ·)
  | .unit h :: .unit l :: rest =>
    if isHigh h then
      if isLow l then
        (chars? rest).map (Char.ofNat (0x10000 + (h - 0xD800) * 0x400 + (l - 0xDC00)) :: ·)
      else none
    else if isLow h then none
    else (chars? (.unit l :: rest)).map (Char.ofNat h :: ·)
  | .unit h :: rest =>
    if isHigh h || isLow h then none else (chars? rest).map (Char.ofNat h :: ·)

/-- The text that a spelling names, if it names one. -/
def text? (s : Spelling) : Option String := s.chars?.map String.ofList

theorem chars?_map_char (cs : List Char) : chars? (cs.map .char) = some cs := by
  induction cs with
  | nil => rfl
  | cons c cs ih => simp [chars?, ih]

@[simp] theorem text?_ofString (s : String) : (ofString s).text? = some s := by
  simp [text?, ofString, chars?_map_char]

end Spelling

inductive Json where
  | null
  | bool (b : Bool)
  | number (n : Decimal.Numeral)
  | string (s : Spelling)
  | array (items : List Json)
  | object (members : List (Spelling × Json))

end LeastSquares
