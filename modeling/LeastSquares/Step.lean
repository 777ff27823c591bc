import LeastSquares.Linear.Cholesky

/-! # Steps

The step `h` solves the damped normal equations `(G + D) h = -g`, and the denominator of its gain
ratio is `h · (D h - g)`.
-/

namespace LeastSquares

variable {α : Type} [Scalar α] {n : Nat}

structure Step (α : Type) (n : Nat) where
  move : Vector α n
  denominator : α

namespace Step

/-- `h · (D h - g)`, summed over the components that all three have. -/
def gainDenominator (h d g : List α) : α :=
  Scalar.sum (((h.zip d).zip g).map fun ((h, d), g) => h * (d * h - g))

/-- The step for a Gauss-Newton matrix, a gradient and a damping diagonal. There is none if the
damped matrix is not positive definite. -/
def damped? (gram : Mat α n n) (gradient damping : Vector α n) : Option (Step α n) :=
  ((gram.addDiagonal damping).solve? (negated gradient)).map fun h =>
    ⟨h, gainDenominator h.toList damping.toList gradient.toList⟩

end Step

end LeastSquares
