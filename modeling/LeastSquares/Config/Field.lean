import LeastSquares.Config.Basic
import LeastSquares.Json.Basic
import LeastSquares.Json.Number

/-! # The fields of a configuration

In a JSON text a configuration has ten named fields. For each of them this module says what value
it has in a configuration and which values it can be given.
-/

namespace LeastSquares

open Decimal

variable {α : Type}

namespace Algorithm

def all : List Algorithm := [levenbergMarquardt]

end Algorithm

namespace DampingStyle

def all : List DampingStyle := [identity, diagonal]

def name : DampingStyle → String
  | identity => "identity"
  | diagonal => "jtj-diagonal"

end DampingStyle

namespace DisplayLevel

def all : List DisplayLevel := [off, final, finalDetailed, iter, iterDetailed]

def name : DisplayLevel → String
  | off => "off"
  | final => "final"
  | finalDetailed => "final-detailed"
  | iter => "iter"
  | iterDetailed => "iter-detailed"

end DisplayLevel

namespace Json

def ofString (s : String) : Json := .string (Spelling.ofString s)

def ofNat (n : Nat) : Json := .number ⟨false, digits n, [], none⟩

section Numbers

variable [JsonNumber α]

/-- A number, or null in place of one that JSON has no numeral for. -/
def ofNumber (x : α) : Json :=
  match JsonNumber.toNumeral? x with
  | some n => .number n
  | none => .null

def ofLimit : Option α → Json
  | none => .null
  | some x => ofNumber x

def toNumber? : Json → Option α
  | .number n => JsonNumber.ofNumeral? n
  | _ => none

def toLimit? : Json → Option (Option α)
  | .null => some none
  | v => v.toNumber?.map some

def toLimits? : Json → Option (List (Option α))
  | .array items => items.mapM toLimit?
  | _ => none

end Numbers

def toNat? : Json → Option Nat
  | .number n => n.natural?
  | _ => none

def toBool? : Json → Option Bool
  | .bool b => some b
  | _ => none

/-- The choice that a value names, as a string or as the only key of an object that maps it to
null. -/
def toChoice? {β : Type} (options : List β) (name : β → String) : Json → Option β
  | .string s => s.text?.bind given
  | .object [(key, .null)] => key.text?.bind given
  | _ => none
where
  given (text : String) : Option β := options.find? fun option => name option = text

end Json

namespace Config

inductive Field where
  | algorithm
  | damping
  | tau
  | parameterTolerance
  | objectiveTolerance
  | maxIterations
  | lowerBound
  | upperBound
  | display
  | recordTrace
deriving DecidableEq, Repr

namespace Field

/-- The fields in the order in which they are written. -/
def all : List Field :=
  [algorithm, damping, tau, parameterTolerance, objectiveTolerance, maxIterations, lowerBound,
    upperBound, display, recordTrace]

def name : Field → String
  | algorithm => "algorithm"
  | damping => "damping"
  | tau => "tau"
  | parameterTolerance => "tol_x"
  | objectiveTolerance => "tol_f"
  | maxIterations => "max_iterations"
  | lowerBound => "lower_bound"
  | upperBound => "upper_bound"
  | display => "display"
  | recordTrace => "record_trace"

def ofName? (text : String) : Option Field := all.find? fun f => f.name = text

theorem ofName?_name (f : Field) : ofName? f.name = some f := by
  cases f <;> decide

variable [JsonNumber α]

def get (c : Config α) : Field → Json
  | algorithm => .ofString c.algorithm.name
  | damping => .ofString c.damping.name
  | tau => .ofNumber c.tau
  | parameterTolerance => .ofNumber c.parameterTolerance
  | objectiveTolerance => .ofNumber c.objectiveTolerance
  | maxIterations => .ofNat c.maxIterations
  | lowerBound => .array (c.bounds.lower.map .ofLimit)
  | upperBound => .array (c.bounds.upper.map .ofLimit)
  | display => .ofString c.display.name
  | recordTrace => .bool c.recordTrace

/-- The configuration with a field set to a value, if the value is of the right kind. -/
def set? (c : Config α) (v : Json) : Field → Option (Config α)
  | algorithm => (v.toChoice? Algorithm.all Algorithm.name).map ({ c with algorithm := · })
  | damping => (v.toChoice? DampingStyle.all DampingStyle.name).map ({ c with damping := · })
  | tau => v.toNumber?.map ({ c with tau := · })
  | parameterTolerance => v.toNumber?.map ({ c with parameterTolerance := · })
  | objectiveTolerance => v.toNumber?.map ({ c with objectiveTolerance := · })
  | maxIterations => v.toNat?.map ({ c with maxIterations := · })
  | lowerBound => v.toLimits?.map fun limits => { c with bounds.lower := limits }
  | upperBound => v.toLimits?.map fun limits => { c with bounds.upper := limits }
  | display => (v.toChoice? DisplayLevel.all DisplayLevel.name).map ({ c with display := · })
  | recordTrace => v.toBool?.map ({ c with recordTrace := · })

end Field

end Config

end LeastSquares
