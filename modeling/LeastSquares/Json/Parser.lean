import LeastSquares.Json.Token

/-! # Reading JSON values

The second stage of reading: tokens become a value. The containers that are still open form a stack,
and each token is one step of a machine on it, so depth of nesting costs nothing but memory.
-/

namespace LeastSquares.Json

/-- A container that is still open, with what it holds so far, the last first. -/
inductive Frame where
  | array (items : List Json)
  /-- The value of `key` is yet to come. -/
  | object (members : List (Spelling × Json)) (key : Spelling)

/-- What may come next. -/
inductive Mode where
  /-- A value must come. -/
  | value
  /-- A first item, or the end of the array just opened. -/
  | firstItem
  /-- A first member, or the end of the object just opened. -/
  | firstMember
  /-- A member of an object that holds these. -/
  | member (members : List (Spelling × Json))
  /-- The colon behind a key. -/
  | colon
  /-- Another item, or the end of the array. -/
  | nextItem
  /-- Another member, or the end of an object that holds these. -/
  | nextMember (members : List (Spelling × Json))
  /-- Nothing: the value is complete. -/
  | complete (v : Json)

structure Machine where
  stack : List Frame
  mode : Mode

namespace Machine

def start : Machine := ⟨[], .value⟩

/-- After a value is complete within the open containers. -/
def deliver (v : Json) : List Frame → Machine
  | [] => ⟨[], .complete v⟩
  | .array items :: rest => ⟨.array (v :: items) :: rest, .nextItem⟩
  | .object members key :: rest => ⟨rest, .nextMember ((key, v) :: members)⟩

/-- A token where a value may begin. -/
def beginValue (stack : List Frame) : Token → Option Machine
  | .openBracket => some ⟨.array [] :: stack, .firstItem⟩
  | .openBrace => some ⟨stack, .firstMember⟩
  | .string s => some (deliver (.string s) stack)
  | .atom v => some (deliver v stack)
  | _ => none

/-- The end of the innermost array. -/
def closeArray : List Frame → Option Machine
  | .array items :: rest => some (deliver (.array items.reverse) rest)
  | _ => none

/-- One token more. -/
def step (m : Machine) (t : Token) : Option Machine :=
  match m.mode, t with
  | .value, t => beginValue m.stack t
  | .firstItem, .closeBracket => closeArray m.stack
  | .firstItem, t => beginValue m.stack t
  | .nextItem, .closeBracket => closeArray m.stack
  | .nextItem, .comma => some ⟨m.stack, .value⟩
  | .firstMember, .closeBrace => some (deliver (.object []) m.stack)
  | .firstMember, .string key => some ⟨.object [] key :: m.stack, .colon⟩
  | .member members, .string key => some ⟨.object members key :: m.stack, .colon⟩
  | .colon, .colon => some ⟨m.stack, .value⟩
  | .nextMember members, .closeBrace => some (deliver (.object members.reverse) m.stack)
  | .nextMember members, .comma => some ⟨m.stack, .member members⟩
  | _, _ => none

/-- The value that was read, if it is complete. -/
def result? (m : Machine) : Option Json :=
  match m.mode with
  | .complete v => some v
  | _ => none

end Machine

def ofTokens? (ts : List Token) : Option Json :=
  (ts.foldlM Machine.step Machine.start).bind Machine.result?

/-- The value that a text spells, with nothing but white space around it. -/
def parse? (text : String) : Option Json :=
  (tokens? text.toList).bind ofTokens?

end LeastSquares.Json
