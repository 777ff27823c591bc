import LeastSquares.Problem

/-! # Forward differences

A Jacobian made of difference quotients. Each column comes from one evaluation at a point that is
moved in one component, against the evaluation at the point itself.
-/

namespace LeastSquares.Forward

variable {α : Type} [Scalar α] {n : Nat}

/-- The increment unless a caller wants another. -/
def standardIncrement : α := Scalar.ratio 1 100000000

/-- The increment of a component: relative to its magnitude, but not below `epsilon`. -/
def increment (epsilon x : α) : α :=
  if epsilon < Scalar.abs x then Scalar.abs x * epsilon else epsilon

/-- A point moved in one component. -/
def moved (x : Vector α n) (j : Fin n) (h : α) : Vector α n :=
  Vector.ofFn fun i => if i = j then x.get i + h else x.get i

/-- The difference quotients for increment `h`, if there are as many residuals at both points. -/
def quotients {m : Nat} (base : Vector α m) (e : Evaluation α) (h : α) :
    Except (Fault α) (Vector α m) :=
  if fits : e.residuals.size = m then
    .ok ((minus ⟨e.residuals, fits⟩ base).map (· / h))
  else .error (.quotientCount m e.residuals.size)

/-- The Jacobian at a point by forward differences. -/
def jacobian (problem : Problem α n) (x : Vector α n) (epsilon : α) : Run α n (Table α) := do
  let base ← Run.ask problem 0 x false
  let columns ← Logged.tabulate n fun j => do
    let h := increment epsilon (x.get j)
    let e ← Run.ask problem (j + 1) (moved x j h) false
    Logged.settle (quotients base.vector e h)
  return .ofMat (.ofColumns columns)

end LeastSquares.Forward
