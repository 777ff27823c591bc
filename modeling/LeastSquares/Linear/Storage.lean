import LeastSquares.Linear.Mat

/-!
# Storage order

A matrix is kept by rows. Laid out by columns, its entries are those of its transpose by rows. A
vector is laid out as the matrix whose only column it is.
-/

namespace LeastSquares.Mat

variable {α : Type} {m n : Nat}

/-- The entries column after column. -/
def columnMajor (a : Mat α m n) : Vector α (n * m) := a.transpose.entries

/-- The entry of row `i` and column `j` stands at position `j * m + i`. -/
theorem columnMajor_position (a : Mat α m n) (i : Fin m) (j : Fin n) :
    a.columnMajor.get (position j i) = a.entry i j :=
  entry_ofFn (fun j i => a.entry i j) j i

/-- The matrix whose entries, column after column, are given. -/
def ofColumnMajor (v : Vector α (n * m)) : Mat α m n := (Mat.mk v).transpose

def ofVector (v : Vector α m) : Mat α m 1 := ofColumns #v[v]

def toVector (a : Mat α m 1) : Vector α m := a.column 0

end LeastSquares.Mat
