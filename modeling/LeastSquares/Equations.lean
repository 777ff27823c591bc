import LeastSquares.Fault
import LeastSquares.Step

/-! # Equations of any shape

A square matrix and a right-hand side whose length is data too. A matrix that is not square is a
fault at once. A right-hand side of the wrong length is one only when it comes to be divided by a
triangular factor, so a matrix that has no such factor is reported first, and the matrix without
rows, which asks for no division, goes with any right-hand side.
-/

namespace LeastSquares

variable {α : Type}

structure Equations (α : Type) where
  size : Nat
  matrix : Mat α size size
  length : Nat
  right : Vector α length

namespace Equations

def of (a : Table α) (b : List α) : Except (Fault α) (Equations α) :=
  match a.toMat? a.height a.height with
  | none => .error .operandShapes
  | some matrix => .ok ⟨a.height, matrix, b.toArray.size, b.toArray.toVector⟩

variable [Scalar α]

/-- The solution, if the matrix is positive definite. -/
def solve (s : Equations α) : Except (Fault α) (Vector α s.length) :=
  match s.matrix.cholesky? with
  | none => .error (.notPositiveDefinite s.size)
  | some l =>
    match l.solveAny? s.right with
    | none => .error .operandShapes
    | some x => .ok x

/-- The damped step of equations made of a Gauss-Newton matrix and a gradient, for damping entries
as a caller may give them: one for each row, or a single one for the whole diagonal. The denominator
uses the entries as they are. -/
def step (s : Equations α) (damping : List α) : Except (Fault α) (Step α s.length) :=
  match spread? s.size damping with
  | none => .error .operandShapes
  | some diagonal =>
    (solve ⟨s.size, s.matrix.addDiagonal diagonal, s.length, negated s.right⟩).map fun h =>
      ⟨h, Step.gainDenominator h.toList damping s.right.toList⟩

end Equations

end LeastSquares
