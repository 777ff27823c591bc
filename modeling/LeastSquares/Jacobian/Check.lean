import LeastSquares.Jacobian.Probe
import LeastSquares.Random.Normal

/-! # Checking a Jacobian from a seed

A caller who has no base point or direction in mind gets ones drawn at random: the base point with
the seed itself, the direction with the one after it, so that neither depends on whether the other
was given.
-/

namespace LeastSquares.Probe

variable {α : Type} [Scalar α] {n : Nat}

/-- What is drawn from. -/
def population : Normal α := ⟨Scalar.one, Scalar.one⟩

/-- The components given, or else drawn. -/
def orDrawn (given : Option (List α)) (source : Source α) (seed : UInt64) (n : Nat) :
    Except (Fault α) (List α) :=
  match given with
  | some l => .ok l
  | none => (population.vector source seed n).map Vector.toList

/-- Probes a problem from a base point in a direction, either of which may be left to the seed. -/
def check (p : Probe α) (source : Source α) (problem : Problem α n)
    (base direction : Option (List α)) (seed : UInt64) : Run α n (Report α) := do
  let base ← Logged.settle (orDrawn base source seed n)
  let direction ← Logged.settle (orDrawn direction source (seed + 1) n)
  p.run problem base direction

end LeastSquares.Probe
