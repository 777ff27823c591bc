import LeastSquares.Scalar

/-! # Stopping

Why a solve ends, and the test made after every attempt. The test has a strict order: a negligible
denominator first, then, for an accepted step, the decrease of the objective, then the largest
change of a parameter.
-/

namespace LeastSquares

variable {α : Type}

inductive StopReason where
  /-- The cap on iterations was reached and nothing else happened. -/
  | iterationCap
  /-- The Jacobian vanished at the start, or the predicted decrease became negligible. -/
  | localMinimum
  /-- An accepted step moved every parameter by less than the tolerance. -/
  | parametersSettled
  /-- An accepted step lowered the objective by less than the tolerance. -/
  | objectiveSettled
deriving DecidableEq, Repr

inductive Status where
  | running
  | stopped (reason : StopReason)
deriving DecidableEq, Repr

namespace StopReason

/-- Whether a convergence criterion was met, and not just the cap. -/
def converged : StopReason → Bool
  | iterationCap => false
  | _ => true

def exitCode : StopReason → Nat
  | iterationCap => 0
  | localMinimum => 1
  | parametersSettled => 2
  | objectiveSettled => 3

def description : StopReason → String
  | iterationCap => "maximum number of iterations reached"
  | localMinimum => "local minimum reached"
  | parametersSettled => "change in 'x' less than 'tolX'"
  | objectiveSettled => "change in 'f' less than 'tolF'"

end StopReason

namespace Status

def description : Status → String
  | running => "optimization is still running"
  | stopped reason => reason.description

def terminated : Status → Bool
  | running => false
  | stopped _ => true

def converged : Status → Bool
  | running => false
  | stopped reason => reason.converged

def exitCode? : Status → Option Nat
  | running => none
  | stopped reason => some reason.exitCode

end Status

/-- What counts as no change, for one component. -/
structure Tolerances (α : Type) where
  parameters : α
  objective : α

namespace Tolerances

variable [Scalar α]

/-- Tolerances for a whole problem divided among its `n` parameters. -/
def share (parameters objective : α) (n : Nat) : Tolerances α :=
  let count : α := ((max n 1 : Nat) : α)
  ⟨parameters / count, objective / count⟩

def largestChange (old new : List α) : α :=
  (List.zipWith (fun a b => Scalar.abs (a - b)) old new).foldl Scalar.larger Scalar.zero

/-- The verdict on an attempt with this denominator and gain ratio, after which cost and point are
`cost` and `point` and were `oldCost` and `oldPoint` before the last accepted step. -/
def verdict (t : Tolerances α) (denominator rho oldCost cost : α) (oldPoint point : List α) :
    Status :=
  if denominator < Scalar.epsilon then .stopped .localMinimum
  else if Scalar.zero < rho then
    if oldCost - cost < t.objective then .stopped .objectiveSettled
    else if largestChange oldPoint point < t.parameters then .stopped .parametersSettled
    else .running
  else .running

end Tolerances

end LeastSquares
