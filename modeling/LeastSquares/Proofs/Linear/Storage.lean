import Mathlib
import LeastSquares.Linear.Storage

/-! # Storage orders

Rows and columns trade places twice without a trace, so the layout by columns loses nothing and
invents nothing: a matrix of any shape comes back from its layout, and every layout comes back from
its matrix. That holds of any order of the entries, so the place of each entry is a statement of its
own. The layout of a vector is the list of its components.
-/

namespace LeastSquares

variable {α : Type} {m n : Nat}

namespace Mat

theorem entry_transpose (a : Mat α m n) (j : Fin n) (i : Fin m) :
    a.transpose.entry j i = a.entry i j :=
  entry_ofFn (fun j i => a.entry i j) j i

theorem transpose_twice (a : Mat α m n) : a.transpose.transpose = a := by
  apply ext_entry
  intro i j
  rw [entry_transpose, entry_transpose]

theorem ofColumnMajor_columnMajor (a : Mat α m n) : ofColumnMajor a.columnMajor = a :=
  a.transpose_twice

theorem columnMajor_ofColumnMajor (v : Vector α (n * m)) :
    (ofColumnMajor v : Mat α m n).columnMajor = v :=
  congrArg entries (transpose_twice ⟨v⟩)

/-- Before the entry of row `i` and column `j` come `i` whole rows and `j` entries of its own. -/
theorem getElem?_entries (a : Mat α m n) (i : Fin m) (j : Fin n) :
    a.entries.toList[i.val * n + j.val]? = some (a.entry i j) := by
  rw [Vector.getElem?_toList]
  exact Vector.getElem?_eq_getElem (position i j).isLt

/-- By columns, before the entry of row `i` and column `j` come `j` whole columns and `i` entries of
its own. -/
theorem getElem?_columnMajor (a : Mat α m n) (i : Fin m) (j : Fin n) :
    a.columnMajor.toList[j.val * m + i.val]? = some (a.entry i j) := by
  rw [columnMajor, getElem?_entries, entry_transpose]

theorem toVector_ofVector (v : Vector α m) : (ofVector v).toVector = v := by
  apply ext_get
  intro i
  rw [toVector, get_column, ofVector, ofColumns, entry_ofFn]
  rfl

theorem ofVector_toVector (a : Mat α m 1) : ofVector a.toVector = a := by
  apply ext_entry
  intro i j
  rw [Subsingleton.elim j 0, ofVector, ofColumns, entry_ofFn]
  exact get_column a 0 i

theorem toList_columnMajor_ofVector (v : Vector α m) :
    (ofVector v).columnMajor.toList = v.toList := by
  apply List.ext_getElem?
  intro k
  rcases Nat.lt_or_ge k m with hk | hk
  · -- No whole column comes before component `k`, only the components above it.
    have hentry := getElem?_columnMajor (ofVector v) ⟨k, hk⟩ 0
    rw [Fin.val_zero, Nat.zero_mul, Nat.zero_add] at hentry
    rw [hentry, ← get_column, ← toVector, toVector_ofVector, Vector.getElem?_toList]
    exact (Vector.getElem?_eq_getElem hk).symm
  · rw [List.getElem?_eq_none (by simpa using hk), List.getElem?_eq_none (by simpa using hk)]

end Mat

/-- The layout by columns of a matrix of any shape has room for each entry once. That of row `i` and
column `j` stands after `j` columns and `i` entries, while by rows it stands after `i` rows and `j`
entries. Reading a layout undoes it, and laying out undoes reading, for the shape and for every
entry. A vector is laid out as the list of its components, and layout and vector give each other
back. -/
theorem Table.storage_orders_inverse :
    (∀ t : Table α,
      t.body.columnMajor.toList.length = t.height * t.width ∧
      (∀ (i : Fin t.height) (j : Fin t.width),
        t.toList[i.val * t.width + j.val]? = some (t.body.entry i j) ∧
        t.body.columnMajor.toList[j.val * t.height + i.val]? = some (t.body.entry i j)) ∧
      ofMat (.ofColumnMajor t.body.columnMajor) = t) ∧
    (∀ (r c : Nat) (storage : Vector α (c * r)),
      let t := ofMat (.ofColumnMajor storage : Mat α r c)
      t.height = r ∧ t.width = c ∧ t.body.columnMajor = storage) ∧
    (∀ {n : Nat} (v : Vector α n),
      (Mat.ofVector v).columnMajor.toList = v.toList ∧
      (Mat.ofColumnMajor (Mat.ofVector v).columnMajor).toVector = v) ∧
    ∀ {n : Nat} (storage : Vector α (1 * n)),
      (Mat.ofVector (Mat.ofColumnMajor storage).toVector).columnMajor = storage := by
  refine ⟨?_, ?_, ?_, ?_⟩
  · intro t
    refine ⟨?_, ?_, ?_⟩
    · rw [Vector.length_toList, Nat.mul_comm]
    · intro i j
      exact ⟨t.body.getElem?_entries i j, t.body.getElem?_columnMajor i j⟩
    · rw [Mat.ofColumnMajor_columnMajor, ofMat]
  · intro r c storage
    exact ⟨rfl, rfl, Mat.columnMajor_ofColumnMajor storage⟩
  · intro n v
    refine ⟨Mat.toList_columnMajor_ofVector v, ?_⟩
    rw [Mat.ofColumnMajor_columnMajor, Mat.toVector_ofVector]
  · intro n storage
    rw [Mat.ofVector_toVector, Mat.columnMajor_ofColumnMajor]

/-- Two rows of three entries become three columns of two. -/
example : (⟨#v[1, 2, 3, 4, 5, 6]⟩ : Mat Nat 2 3).columnMajor = #v[1, 4, 2, 5, 3, 6] := by
  decide

end LeastSquares
