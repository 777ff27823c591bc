import LeastSquares.Json.Basic

/-! # Writing JSON values

Each item or member has a line of its own, indented by two blanks for each container around it. An
empty container is a pair of brackets.
-/

namespace LeastSquares.Json

def hexChar (n : Nat) : Char := if n < 10 then Char.ofNat (48 + n) else Char.ofNat (87 + n)

/-- A unit as an escape. -/
def unitChars (u : Nat) : List Char :=
  ['\\', 'u', hexChar (u / 4096 % 16), hexChar (u / 256 % 16), hexChar (u / 16 % 16),
    hexChar (u % 16)]

def quotedChar (c : Char) : List Char :=
  match c with
  | '"' => ['\\', '"']
  | '\\' => ['\\', '\\']
  | '\x08' => ['\\', 'b']
  | '\x0c' => ['\\', 'f']
  | '\n' => ['\\', 'n']
  | '\r' => ['\\', 'r']
  | '\t' => ['\\', 't']
  | c => if c.toNat < 0x20 then unitChars c.toNat else [c]

def pieceChars : Piece → List Char
  | .char c => quotedChar c
  | .unit u => unitChars u

def spellingChars (s : Spelling) : List Char := '"' :: s.flatMap pieceChars ++ ['"']

/-- A new line at a depth of nesting. -/
def newline (depth : Nat) : List Char := '\n' :: List.replicate (2 * depth) ' '

mutual

/-- The characters of a value at a depth of nesting. -/
def chars (depth : Nat) : Json → List Char
  | .null => "null".toList
  | .bool true => "true".toList
  | .bool false => "false".toList
  | .number n => n.chars
  | .string s => spellingChars s
  | .array [] => ['[', ']']
  | .array (v :: rest) =>
    '[' :: newline (depth + 1) ++ chars (depth + 1) v ++ itemChars (depth + 1) rest ++
      newline depth ++ [']']
  | .object [] => ['{', '}']
  | .object ((key, v) :: rest) =>
    '{' :: newline (depth + 1) ++ spellingChars key ++ [':', ' '] ++ chars (depth + 1) v ++
      memberChars (depth + 1) rest ++ newline depth ++ ['}']

def itemChars (depth : Nat) : List Json → List Char
  | [] => []
  | v :: rest => ',' :: newline depth ++ chars depth v ++ itemChars depth rest

def memberChars (depth : Nat) : List (Spelling × Json) → List Char
  | [] => []
  | (key, v) :: rest =>
    ',' :: newline depth ++ spellingChars key ++ [':', ' '] ++ chars depth v ++
      memberChars depth rest

end

def render (v : Json) : String := String.ofList (chars 0 v)

end LeastSquares.Json
