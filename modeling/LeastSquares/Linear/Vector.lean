import LeastSquares.Scalar

/-!
# Vectors of scalars

Products and norms of vectors of a known length, summed from left to right, and the one rule by
which a list of scalars is taken for a vector of a wanted length: a single entry stands for every
component.
-/

namespace LeastSquares

open Scalar (zero)

section Entries

variable {α : Type} {n : Nat}

@[simp] theorem get_ofFn (f : Fin n → α) (i : Fin n) : (Vector.ofFn f).get i = f i :=
  Vector.getElem_ofFn i.isLt

theorem ext_get {u v : Vector α n} (h : ∀ i, u.get i = v.get i) : u = v := by
  apply Vector.ext
  intro i hi
  exact h ⟨i, hi⟩

@[simp] theorem get_map {β : Type} (f : α → β) (v : Vector α n) (i : Fin n) :
    (v.map f).get i = f (v.get i) := by
  simp [Vector.get]

/-- A vector with one component more in front. -/
def prepend (a : α) (v : Vector α n) : Vector α (n + 1) :=
  Vector.ofFn fun i => Fin.cases a v.get i

@[simp] theorem get_prepend_zero (a : α) (v : Vector α n) : (prepend a v).get 0 = a :=
  get_ofFn ..

@[simp] theorem get_prepend_succ (a : α) (v : Vector α n) (i : Fin n) :
    (prepend a v).get i.succ = v.get i :=
  get_ofFn ..

/-- A list as a vector with `n` components: one of that length as it is, a single entry repeated,
and no other. -/
def spread? (n : Nat) (l : List α) : Option (Vector α n) :=
  if h : l.toArray.size = n then some ⟨l.toArray, h⟩
  else
    match l with
    | [a] => some (Vector.replicate n a)
    | _ => none

/-- A list that already has the wanted length stands for itself. -/
theorem spread?_toList (v : Vector α n) : spread? n v.toList = some v := by
  obtain ⟨a, rfl⟩ := v
  simp [spread?, Vector.toList]

end Entries

variable {α : Type} [Scalar α] {n : Nat}

/-- The sum of `f 0`, `f 1`, … from left to right, starting from zero. -/
def sumOver (n : Nat) (f : Fin n → α) : α :=
  Fin.foldl n (fun s i => s + f i) zero

def dot (u v : Vector α n) : α :=
  sumOver n fun i => u.get i * v.get i

def plus (u v : Vector α n) : Vector α n := Vector.ofFn fun i => u.get i + v.get i

def minus (u v : Vector α n) : Vector α n := Vector.ofFn fun i => u.get i - v.get i

def negated (v : Vector α n) : Vector α n := Vector.ofFn fun i => -v.get i

@[simp] theorem get_plus (u v : Vector α n) (i : Fin n) :
    (plus u v).get i = u.get i + v.get i :=
  get_ofFn ..

@[simp] theorem get_minus (u v : Vector α n) (i : Fin n) :
    (minus u v).get i = u.get i - v.get i :=
  get_ofFn ..

@[simp] theorem get_negated (v : Vector α n) (i : Fin n) : (negated v).get i = -v.get i :=
  get_ofFn ..

/-- The Euclidean length of a list of components. -/
def norm (l : List α) : α :=
  Scalar.sqrt (Scalar.sum (l.map fun v => v * v))

end LeastSquares
