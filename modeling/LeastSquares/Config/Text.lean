import LeastSquares.Config.Field
import LeastSquares.Json.Parser
import LeastSquares.Json.Printer

/-! # Configurations as JSON texts

A text is laid over the defaults: each field that it gives replaces one of them, and members with
other names are passed over. No field may be given twice. Instead of an object the text may be an
array that gives the fields in order, as many of them as it has items.
-/

namespace LeastSquares.Config

variable {α : Type} [JsonNumber α]

def toJson (c : Config α) : Json :=
  .object (Field.all.map fun f => (Spelling.ofString f.name, f.get c))

def text (c : Config α) : String := c.toJson.render

/-- A configuration with the members of an object laid over it, of which `given` have been already.
The names of members must be texts, even those of members that are passed over. -/
def overlay? (given : List Field) (c : Config α) : List (Spelling × Json) → Option (Config α)
  | [] => some c
  | (key, v) :: rest => do
    match Field.ofName? (← key.text?) with
    | none => overlay? given c rest
    | some f => if f ∈ given then none else overlay? (f :: given) (← f.set? c v) rest

/-- A configuration with values laid over its first fields. -/
def fill? (c : Config α) : List Field → List Json → Option (Config α)
  | _, [] => some c
  | [], _ :: _ => none
  | f :: fields, v :: rest => do fill? (← f.set? c v) fields rest

variable [Scalar α]

def ofJson? : Json → Option (Config α)
  | .object members => overlay? [] standard members
  | .array items => fill? standard Field.all items
  | _ => none

def ofText (text : String) : Except (Fault α) (Config α) :=
  match (Json.parse? text).bind ofJson? with
  | some c => .ok c
  | none => .error .unreadable

end LeastSquares.Config
