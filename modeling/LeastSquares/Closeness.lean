import LeastSquares.Fault
import LeastSquares.Linear.Mat

/-! # Closeness

The distance of two arrays of one shape is the Euclidean length of their difference. It is measured
as it is, and in units of the longer of the two, which counts as no shorter than `Scalar.epsilon`.
-/

namespace LeastSquares

variable {α : Type}

/-- An array with any number of axes. Its entries follow each other with the last axis running
fastest. -/
structure Tensor (α : Type) where
  shape : List Nat
  entries : List α
  length_entries : entries.length = shape.foldl (· * ·) 1

namespace Tensor

def ofList (l : List α) : Tensor α := ⟨[l.length], l, by simp⟩

def ofTable (t : Table α) : Tensor α :=
  ⟨[t.height, t.width], t.toList, by simp [t.length_toList]⟩

end Tensor

structure Gap (α : Type) where
  absolute : α
  relative : α

namespace Gap

variable [Scalar α]

def between (a b : List α) : Gap α :=
  let distance := norm (List.zipWith (· - ·) a b)
  let scale := Scalar.larger (Scalar.larger (norm a) (norm b)) Scalar.epsilon
  ⟨distance, distance / scale⟩

/-- Whether the gap is within a limit in one sense or the other. -/
def within (g : Gap α) (absolute relative : α) : Bool :=
  decide (g.absolute ≤ absolute) || decide (g.relative ≤ relative)

end Gap

namespace Tensor

variable [Scalar α]

/-- The gap between two arrays, which must have the same shape. -/
def gap (a b : Tensor α) : Except (Fault α) (Gap α) :=
  if a.shape = b.shape then .ok (.between a.entries b.entries)
  else .error (.unlikeShapes a.shape b.shape)

/-- Whether two arrays are close in the absolute or in the relative sense. -/
def near (a b : Tensor α) (tolerance : α) : Except (Fault α) Bool :=
  (a.gap b).map fun g => g.within tolerance tolerance

def nearAbsolutely (a b : Tensor α) (tolerance : α) : Except (Fault α) Bool :=
  (a.gap b).map fun g => decide (g.absolute ≤ tolerance)

def nearRelatively (a b : Tensor α) (tolerance : α) : Except (Fault α) Bool :=
  (a.gap b).map fun g => decide (g.relative ≤ tolerance)

end Tensor

end LeastSquares
