import LeastSquares.NumberText

/-! # Faults

Everything that can go wrong, as causes. The wording of a cause is in one place, `Fault.message`,
and never decides anything.
-/

namespace LeastSquares

/-- The families that faults are reported under. -/
inductive FaultKind where
  | dimension
  | configuration
  | evaluation
  | linearAlgebra
  /-- A configuration text that cannot be read. -/
  | text
  /-- Operands whose shapes fit no operation. -/
  | operands
  | other
deriving DecidableEq, Repr

namespace FaultKind

/-- The words that open a message of this family. -/
def heading : FaultKind → String
  | dimension => "Dimension mismatch: "
  | configuration => "Invalid configuration: "
  | evaluation => "Function evaluation error: "
  | linearAlgebra => "Linear algebra error: "
  | text => "JSON error: "
  | operands => "Incompatible operands: "
  | other => "Error: "

end FaultKind

inductive Side where
  | lower
  | upper
deriving DecidableEq, Repr

inductive Measure where
  | parameters
  | objective
deriving DecidableEq, Repr

inductive Fault (α : Type) where
  | noParameters
  | badDampingScale (tau : α)
  | badTolerance (measure : Measure) (tolerance : α)
  | limitCount (side : Side) (found expected : Nat)
  | crossedLimits (lower upper : α) (index : Nat)
  | unknownAlgorithm (name : String)
  | zeroDirection
  | badSpread (mean spread : α)
  | jacobianMissing
  | jacobianShape (height width foundHeight foundWidth : Nat)
  | residualCount (expected found iteration : Nat)
  /-- A difference quotient met another number of residuals than the base point has. -/
  | quotientCount (expected found : Nat)
  | probeCount (expected base direction : Nat)
  | unlikeShapes (left right : List Nat)
  | notPositiveDefinite (size : Nat)
  | unreadable
  | operandShapes
  /-- A fault that the problem itself reports, passed on as it is. -/
  | reported (kind : FaultKind) (text : String)

namespace Fault

variable {α : Type}

def kind : Fault α → FaultKind
  | noParameters | badDampingScale .. | badTolerance .. | limitCount .. | crossedLimits ..
  | unknownAlgorithm _ | zeroDirection | badSpread .. => .configuration
  | jacobianMissing => .evaluation
  | jacobianShape .. | residualCount .. | quotientCount .. | probeCount .. | unlikeShapes .. =>
    .dimension
  | notPositiveDefinite _ => .linearAlgebra
  | unreadable => .text
  | operandShapes => .operands
  | reported kind _ => kind

def shapeText (shape : List Nat) : String :=
  "[" ++ ", ".intercalate (shape.map toString) ++ "]"

def sideName : Side → String
  | .lower => "lower"
  | .upper => "upper"

def toleranceName : Measure → String
  | .parameters => "tol_x"
  | .objective => "tol_f"

variable [NumberText α]

/-- What is said of a fault after the heading of its kind. -/
def detail : Fault α → String
  | noParameters => "at least one parameter is required"
  | badDampingScale tau =>
    "tau must be positive and finite, got " ++ NumberText.plain tau
  | badTolerance measure tolerance =>
    toleranceName measure ++ " must be non-negative and finite, got " ++ NumberText.plain tolerance
  | limitCount side found expected =>
    sideName side ++ s!" bound has {found} entries, expected 0 or {expected}"
  | crossedLimits lower upper index =>
    "lower bound " ++ NumberText.plain lower ++ " exceeds upper bound " ++ NumberText.plain upper ++
      s!" for parameter {index}"
  | unknownAlgorithm name => "unknown algorithm '" ++ name ++ "'"
  | zeroDirection => "probe direction must be non-zero"
  | badSpread mean spread =>
    "invalid normal distribution (mu = " ++ NumberText.plain mean ++ ", sigma = " ++
      NumberText.plain spread ++
      "): variation parameter is non-finite in (log)normal distribution"
  | jacobianMissing => "Jacobian requested but not returned"
  | jacobianShape height width foundHeight foundWidth =>
    s!"expected a {height}x{width} Jacobian, got {foundHeight}x{foundWidth}"
  | residualCount expected found iteration =>
    s!"expected {expected} residuals, got {found} at iteration {iteration}"
  | quotientCount expected found => s!"Expected {expected} residuals, got {found}"
  | probeCount expected base direction =>
    s!"expected base point and direction of length {expected}, got {base} and {direction}"
  | unlikeShapes left right =>
    "cannot compare arrays of shape " ++ shapeText left ++ " and " ++ shapeText right
  | notPositiveDefinite size =>
    s!"Cholesky factorization failed: {size}x{size} damped normal matrix is not positive definite"
  | unreadable => "not a configuration"
  | operandShapes => "shapes do not fit"
  | reported _ text => text

def message (f : Fault α) : String := f.kind.heading ++ f.detail

end Fault

end LeastSquares
