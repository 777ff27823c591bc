import LeastSquares.Bounds
import LeastSquares.Damping
import LeastSquares.Text.Blank

/-! # Configurations

What a caller can choose about a solve, the defaults, and the check that a choice fits a problem.
-/

namespace LeastSquares

variable {α : Type}

inductive Algorithm where
  | levenbergMarquardt
deriving DecidableEq, Repr

namespace Algorithm

def name : Algorithm → String
  | levenbergMarquardt => "levenberg-marquardt"

/-- The spellings that a user may type. -/
def spellings : List String := ["lm", "levenberg-marquardt", "levenberg_marquardt"]

/-- The algorithm that a user means. Blanks around the name and the case of ASCII letters do not
matter. -/
def ofUserText (text : String) : Except (Fault α) Algorithm :=
  let spelling := String.ofList ((Text.trimBlanks text.toList).map Char.toLower)
  if spelling ∈ spellings then .ok .levenbergMarquardt else .error (.unknownAlgorithm spelling)

end Algorithm

/-- How much a solve prints. Each level prints all that the ones before it do. -/
inductive DisplayLevel where
  | off
  /-- Why the solve ended. -/
  | final
  /-- The objective at the end, too. -/
  | finalDetailed
  /-- A row for each iteration, too. -/
  | iter
  /-- Gain ratio and damping in each row, too. -/
  | iterDetailed
deriving DecidableEq, Repr

namespace DisplayLevel

def rank : DisplayLevel → Nat
  | off => 0
  | final => 1
  | finalDetailed => 2
  | iter => 3
  | iterDetailed => 4

instance : LE DisplayLevel := ⟨fun a b => a.rank ≤ b.rank⟩

instance (a b : DisplayLevel) : Decidable (a ≤ b) := inferInstanceAs (Decidable (a.rank ≤ b.rank))

instance : Ord DisplayLevel := ⟨fun a b => compare a.rank b.rank⟩

end DisplayLevel

/-- The choices for a solve. The tolerances are shared out among the parameters. -/
structure Config (α : Type) where
  algorithm : Algorithm
  damping : DampingStyle
  /-- The initial damping factor in units of the largest diagonal entry of the Gauss-Newton
  matrix. -/
  tau : α
  parameterTolerance : α
  objectiveTolerance : α
  maxIterations : Nat
  bounds : Bounds α
  display : DisplayLevel
  recordTrace : Bool

namespace Config

variable [Scalar α]

def standard : Config α where
  algorithm := .levenbergMarquardt
  damping := .identity
  tau := Scalar.ratio 1 1000
  parameterTolerance := Scalar.ratio 1 1000000
  objectiveTolerance := Scalar.ratio 1 1000000
  maxIterations := 400
  bounds := .unlimited
  display := .off
  recordTrace := false

/-- A tolerance is finite and not negative. -/
def checkedTolerance (measure : Measure) (tolerance : α) : Except (Fault α) Unit :=
  if Scalar.isFinite tolerance && decide (Scalar.zero ≤ tolerance) then .ok ()
  else .error (.badTolerance measure tolerance)

/-- The limits of a problem with `n` parameters that can be solved with these choices, or the first
of the choices that cannot be right. -/
def validate (c : Config α) (n : Nat) : Except (Fault α) (Box α n) := do
  if n = 0 then throw .noParameters
  unless Scalar.isFinite c.tau && decide (Scalar.zero < c.tau) do throw (.badDampingScale c.tau)
  checkedTolerance .parameters c.parameterTolerance
  checkedTolerance .objective c.objectiveTolerance
  c.bounds.validate n

end Config

end LeastSquares
