import LeastSquares.Closeness
import LeastSquares.Problem

/-! # Probing a Jacobian

The Jacobian that a problem answers at a base point is held against the change of the residuals over
a short way in one direction. Only the direction's direction matters, not its length.
-/

namespace LeastSquares

variable {α : Type} {n : Nat}

/-- How far to go, and what counts as agreement in units of that. -/
structure Probe (α : Type) where
  delta : α
  absoluteFactor : α
  relativeFactor : α

namespace Probe

/-- What a probe found. -/
structure Report (α : Type) where
  gap : Gap α
  absoluteThreshold : α
  relativeThreshold : α
  passed : Bool

variable [Scalar α]

def standard : Probe α := ⟨Scalar.ratio 1 10000, Scalar.ratio 1 100, Scalar.ratio 10 1⟩

/-- The verdict on a gap between predicted and actual change. -/
def report (p : Probe α) (gap : Gap α) : Report α :=
  let absoluteThreshold := p.absoluteFactor * p.delta
  let relativeThreshold := p.relativeFactor * p.delta
  ⟨gap, absoluteThreshold, relativeThreshold, gap.within absoluteThreshold relativeThreshold⟩

/-- The end of the way from a base point. A direction of negligible length leads nowhere. -/
def target? (p : Probe α) (base direction : Vector α n) : Option (Vector α n) :=
  let length := norm direction.toList
  if length < Scalar.epsilon then none
  else some (plus base (direction.map fun d => d / length * p.delta))

/-- The change of the residuals. A single residual on one side stands for all of them. -/
def change? (before after : List α) : Option (List α) := do
  let size := if before.length = 1 then after.length else before.length
  let before ← spread? size before
  let after ← spread? size after
  return (minus after before).toList

/-- The gap between the change of the residuals and what the Jacobian predicts for a move. -/
def compare {m : Nat} (before : Vector α m) (jacobian : Mat α m n) (move : Vector α n)
    (after : List α) : Except (Fault α) (Gap α) :=
  match change? before.toList after with
  | none => .error .operandShapes
  | some change => (Tensor.ofList change).gap (.ofList (jacobian.mulVec move).toList)

/-- Probes a problem from a base point in a direction. -/
def along (p : Probe α) (problem : Problem α n) (base direction : Vector α n) :
    Run α n (Report α) :=
  match p.target? base direction with
  | none => .settle (.error .zeroDirection)
  | some target => do
    let start ← Run.ask problem 0 base true
    let jacobian ← Logged.settle (start.jacobianOf start.residuals.size n)
    let finish ← Run.ask problem 1 target false
    let gap ← Logged.settle
      (compare start.vector jacobian (minus target base) finish.residuals.toList)
    return p.report gap

/-- Probes a problem with `n` parameters from a base point in a direction, which must have as many
components. -/
def run (p : Probe α) (problem : Problem α n) (base direction : List α) : Run α n (Report α) :=
  if h : base.toArray.size = n ∧ direction.toArray.size = n then
    p.along problem ⟨base.toArray, h.1⟩ ⟨direction.toArray, h.2⟩
  else .settle (.error (.probeCount n base.length direction.length))

end Probe

end LeastSquares
