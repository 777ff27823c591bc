import LeastSquares.Decimal.Reading
import LeastSquares.Json.Basic

/-! # JSON tokens

The first stage of reading: characters become tokens. White space between tokens is blank, tab, line
feed and carriage return. A string ends at the first quote that no backslash stands before; a number
or a word is the longest run of characters that may stand in one.
-/

namespace LeastSquares.Json

inductive Token where
  | openBracket
  | closeBracket
  | openBrace
  | closeBrace
  | comma
  | colon
  | string (s : Spelling)
  /-- A number, a truth value or `null`. -/
  | atom (v : Json)

/-- The characters up to the closing quote and what follows it. -/
def splitString? : List Char → Option (List Char × List Char)
  | [] => none
  | '"' :: rest => some ([], rest)
  | '\\' :: c :: rest => (splitString? rest).map fun (body, rest) => ('\\' :: c :: body, rest)
  | c :: rest => (splitString? rest).map fun (body, rest) => (c :: body, rest)

theorem length_of_splitString? {cs : List Char} {split : List Char × List Char}
    (h : splitString? cs = some split) : split.2.length < cs.length := by
  fun_induction splitString? cs generalizing split with
  | case1 => simp at h
  | case2 r =>
    obtain rfl := Option.some.inj h
    exact Nat.lt_succ_self _
  | case3 c r ih =>
    obtain ⟨s, hs, rfl⟩ := Option.map_eq_some_iff.1 h
    have := ih hs
    simp only [List.length_cons]
    omega
  | case4 c r _ _ ih =>
    obtain ⟨s, hs, rfl⟩ := Option.map_eq_some_iff.1 h
    have := ih hs
    simp only [List.length_cons]
    omega

def hexDigit? (c : Char) : Option Nat :=
  if '0' ≤ c ∧ c ≤ '9' then some (c.toNat - 48)
  else if 'a' ≤ c ∧ c ≤ 'f' then some (c.toNat - 87)
  else if 'A' ≤ c ∧ c ≤ 'F' then some (c.toNat - 55)
  else none

/-- The unit that four hexadecimal digits name. -/
def hexUnit? (a b c d : Char) : Option Nat := do
  let a ← hexDigit? a
  let b ← hexDigit? b
  let c ← hexDigit? c
  let d ← hexDigit? d
  return ((a * 16 + b) * 16 + c) * 16 + d

/-- The character that a letter behind a backslash names. -/
def escaped? : Char → Option Char
  | '"' => some '"'
  | '\\' => some '\\'
  | '/' => some '/'
  | 'b' => some '\x08'
  | 'f' => some '\x0c'
  | 'n' => some '\n'
  | 'r' => some '\r'
  | 't' => some '\t'
  | _ => none

/-- The spelling between two quotes. Control characters may not stand there as they are. -/
def spelling? : List Char → Option Spelling
  | [] => some []
  | '\\' :: 'u' :: a :: b :: c :: d :: rest => do
    let u ← hexUnit? a b c d
    let s ← spelling? rest
    return .unit u :: s
  | '\\' :: e :: rest => do
    let c ← escaped? e
    let s ← spelling? rest
    return .char c :: s
  | c :: rest => if c = '\\' ∨ c.toNat < 0x20 then none else (spelling? rest).map (.char c :: ·)

/-- The characters that may stand in a numeral. -/
def inNumeral (c : Char) : Bool := c.isDigit || c ∈ ['-', '+', '.', 'e', 'E']

/-- The value that a word names. -/
def word? (letters : List Char) : Option Json :=
  if letters = "null".toList then some .null
  else if letters = "true".toList then some (.bool true)
  else if letters = "false".toList then some (.bool false)
  else none

def isSpace (c : Char) : Bool := c = ' ' || c = '\t' || c = '\n' || c = '\r'

/-- The token of a character that is one by itself. -/
def punctuation? : Char → Option Token
  | '[' => some .openBracket
  | ']' => some .closeBracket
  | '{' => some .openBrace
  | '}' => some .closeBrace
  | ',' => some .comma
  | ':' => some .colon
  | _ => none

theorem length_dropWhile_le {α : Type} (p : α → Bool) (l : List α) :
    (l.dropWhile p).length ≤ l.length :=
  (List.dropWhile_sublist p).length_le

/-- The tokens of a text, if it consists of tokens and white space. -/
def tokens? : List Char → Option (List Token)
  | [] => some []
  | c :: rest =>
    if isSpace c then tokens? rest
    else
      match punctuation? c with
      | some t => (tokens? rest).map (t :: ·)
      | none =>
        if c = '"' then
          match _h : splitString? rest with
          | none => none
          | some (body, after) => do
            let s ← spelling? body
            let ts ← tokens? after
            return .string s :: ts
        else if c.isAlpha then do
          let v ← word? (c :: rest.takeWhile Char.isAlpha)
          let ts ← tokens? (rest.dropWhile Char.isAlpha)
          return .atom v :: ts
        else do
          let n ← Decimal.Numeral.ofChars? (c :: rest.takeWhile inNumeral)
          let ts ← tokens? (rest.dropWhile inNumeral)
          return .atom (.number n) :: ts
termination_by cs => cs.length
decreasing_by
  · simp
  · simp
  · exact Nat.lt_succ_of_lt (length_of_splitString? ‹_›)
  · exact Nat.lt_succ_of_le (length_dropWhile_le _ _)
  · exact Nat.lt_succ_of_le (length_dropWhile_le _ _)

end LeastSquares.Json
