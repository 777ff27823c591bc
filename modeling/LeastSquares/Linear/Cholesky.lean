import LeastSquares.Linear.Mat

/-!
# Cholesky factorization

A symmetric matrix is written as the product of a lower triangular matrix and its transpose, one
column at a time: the root of the leading entry, the column below it divided by that root, and then
the same for what is left when the column's outer product has been subtracted. The factorization
stops without a result at a leading entry that is not positive. Only the lower triangle of the
matrix has any influence.

The factor is kept as its columns, each one entry shorter than the one before it, so the two
triangular solves are recursions on it.
-/

namespace LeastSquares

variable {α : Type} {n : Nat}

/-- A lower triangular matrix, by columns from the left. -/
inductive Triangle (α : Type) : Nat → Type where
  | nil : Triangle α 0
  /-- A leading column, made of its diagonal entry and what stands below, and the rest. -/
  | cons {n : Nat} (corner : α) (below : Vector α n) (rest : Triangle α n) : Triangle α (n + 1)

namespace Mat

def corner (a : Mat α (n + 1) (n + 1)) : α := a.entry 0 0

/-- The first column without its first entry. -/
def below (a : Mat α (n + 1) (n + 1)) : Vector α n := Vector.ofFn fun i => a.entry i.succ 0

@[simp] theorem get_below (a : Mat α (n + 1) (n + 1)) (i : Fin n) :
    a.below.get i = a.entry i.succ 0 :=
  get_ofFn ..

variable [Scalar α]

/-- What is left of the matrix, without its first row and column, when the outer product of a
column with itself is subtracted. -/
def deflate (a : Mat α (n + 1) (n + 1)) (u : Vector α n) : Mat α n n :=
  .ofFn fun i j => a.entry i.succ j.succ - u.get i * u.get j

/-- The lower triangular factor, if every leading entry met on the way is positive. -/
def cholesky? : {n : Nat} → Mat α n n → Option (Triangle α n)
  | 0, _ => some .nil
  | _ + 1, a =>
    if Scalar.zero < a.corner then
      let root := Scalar.sqrt a.corner
      let u := a.below.map (· / root)
      (a.deflate u).cholesky?.map (.cons root u)
    else none

end Mat

namespace Triangle

variable [Scalar α]

/-- The solution `y` of `L y = b`: each component, once known, is taken out of the equations below
it. -/
def forward : {n : Nat} → Triangle α n → Vector α n → Vector α n
  | 0, .nil, _ => #v[]
  | n + 1, .cons corner below rest, b =>
    let y := b.get 0 / corner
    let left : Vector α n := Vector.ofFn fun i => b.get i.succ - y * below.get i
    prepend y (rest.forward left)

/-- The solution `x` of `Lᵀ x = y`, from the last component to the first. -/
def backward : {n : Nat} → Triangle α n → Vector α n → Vector α n
  | 0, .nil, _ => #v[]
  | _ + 1, .cons corner below rest, y =>
    let x := rest.backward (Vector.ofFn fun i => y.get i.succ)
    prepend ((y.get 0 - dot below x) / corner) x

/-- The solution `x` of `L Lᵀ x = b`. -/
def solve (l : Triangle α n) (b : Vector α n) : Vector α n := l.backward (l.forward b)

/-- The solution of `L Lᵀ x = b` for a vector that need not fit. A triangle without columns leaves
every vector as it is. -/
def solveAny? {k : Nat} (l : Triangle α n) (b : Vector α k) : Option (Vector α k) :=
  if h : k = n then some ((l.solve (b.cast h)).cast h.symm)
  else if n = 0 then some b
  else none

theorem solveAny?_eq_solve (l : Triangle α n) (b : Vector α n) :
    l.solveAny? b = some (l.solve b) := by
  simp [solveAny?]

end Triangle

/-- The solution of a symmetric system given by its lower triangle, if the matrix has a Cholesky
factor. -/
def Mat.solve? [Scalar α] (a : Mat α n n) (b : Vector α n) : Option (Vector α n) :=
  a.cholesky?.map (·.solve b)

end LeastSquares
