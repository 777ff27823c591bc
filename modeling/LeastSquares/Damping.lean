import LeastSquares.Linear.Mat

/-! # Adaptive damping

The damping of the normal equations is a factor `mu`. A step that is accepted shrinks it, the more
the better the step was predicted; each rejection in a row raises it by a growth factor `nu` that
doubles every time.
-/

namespace LeastSquares

variable {α : Type} {n : Nat}

/-- What the damping factor is applied to. -/
inductive DampingStyle where
  | identity
  /-- The diagonal of the Gauss-Newton matrix, which makes the damping follow the units of the
  parameters. -/
  | diagonal
deriving DecidableEq, Repr

structure Damping (α : Type) where
  mu : α
  /-- What the next rejection multiplies `mu` by. -/
  nu : α
  /-- What an acceptance never takes `mu` below. -/
  floor : α

namespace DampingStyle

variable [Scalar α]

/-- The entries of the damping for a matrix with that many rows and that diagonal. -/
def entries (style : DampingStyle) (mu : α) (height : Nat) (diagonal : List α) : List α :=
  match style with
  | .identity => List.replicate height mu
  | .diagonal => diagonal.map (mu * ·)

theorem length_entries (style : DampingStyle) (mu : α) (d : Vector α n) :
    (style.entries mu n d.toList).toArray.size = n := by
  cases style <;> simp [entries]

/-- The damping diagonal of a square matrix. -/
def vector (style : DampingStyle) (mu : α) (gram : Mat α n n) : Vector α n :=
  ⟨(style.entries mu n gram.diagonal.toList).toArray, style.length_entries mu gram.diagonal⟩

@[simp] theorem get_vector_identity (mu : α) (gram : Mat α n n) (i : Fin n) :
    (identity.vector mu gram).get i = mu := by
  simp [vector, entries, Vector.get]

@[simp] theorem get_vector_diagonal (mu : α) (gram : Mat α n n) (i : Fin n) :
    (diagonal.vector mu gram).get i = mu * gram.entry i i := by
  rw [← Mat.get_diagonal gram i]
  simp only [Vector.get, vector, entries, List.getElem_toArray, List.getElem_map,
    Vector.getElem_toList]
  rfl

end DampingStyle

namespace Damping

variable [Scalar α]

/-- The damping factor to start with, in proportion to the largest diagonal entry. -/
def initialMu (tau : α) (diagonal : List α) : α :=
  tau * (Scalar.largest? diagonal).getD Scalar.bottom

/-- The damping to start with. There is none when its factor would be negligible. -/
def start? (tau : α) (diagonal : List α) : Option (Damping α) :=
  let mu := initialMu tau diagonal
  if mu < Scalar.epsilon then none else some ⟨mu, Scalar.two, Scalar.ratio 1 1000000000000⟩

theorem start?_eq_none_iff (tau : α) (diagonal : List α) :
    start? tau diagonal = none ↔ initialMu tau diagonal < Scalar.epsilon := by
  unfold start?
  dsimp only
  split
  next hsmall => exact ⟨fun _ => hsmall, fun _ => rfl⟩
  next hlarge => exact ⟨nofun, fun hsmall => absurd hsmall hlarge⟩

def cube (a : α) : α := a * a * a

/-- The damping after a step was accepted with gain ratio `rho`. -/
def accept (d : Damping α) (rho : α) : Damping α :=
  let factor :=
    Scalar.larger (Scalar.ratio 1 3) (Scalar.one - cube (Scalar.two * rho - Scalar.one))
  { d with mu := Scalar.larger d.floor (d.mu * factor), nu := Scalar.two }

def reject (d : Damping α) : Damping α :=
  { d with mu := d.mu * d.nu, nu := d.nu * Scalar.two }

/-- A step is accepted exactly if its gain ratio is positive. -/
def update (d : Damping α) (rho : α) : Damping α :=
  if Scalar.zero < rho then d.accept rho else d.reject

/-- The gain ratio: the decrease of the cost in units of the predicted one. -/
def gainRatio (cost newCost denominator : α) : α := (cost - newCost) / denominator

end Damping

end LeastSquares
