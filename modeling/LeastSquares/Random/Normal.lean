import LeastSquares.Fault
import LeastSquares.Linear.Mat

/-! # Normal numbers from a seed

Where standard normal numbers come from is a `Source`: a state that a seed fixes, and a draw that
gives a number and the next state. Vectors and matrices of normal numbers are drawn one entry after
the other, matrices row by row, from a state of their own.
-/

namespace LeastSquares

variable {α β σ : Type}

structure Source (α : Type) where
  State : Type
  start : UInt64 → State
  draw : State → α × State

/-- The results of a number of draws. -/
def drawn (draw : σ → β × σ) : (n : Nat) → σ → Vector β n × σ
  | 0, s => (#v[], s)
  | n + 1, s =>
    let (done, s) := drawn draw n s
    let (last, s) := draw s
    (done.push last, s)

/-- A normal distribution. Its spread may have any sign. -/
structure Normal (α : Type) where
  mean : α
  spread : α

namespace Normal

variable [Scalar α]

/-- The normal number that a standard one is scaled and moved to. -/
def place (d : Normal α) (z : α) : α := d.mean + d.spread * z

/-- One draw from the distribution. -/
def draw (d : Normal α) (source : Source α) (s : source.State) : α × source.State :=
  let (z, s) := source.draw s
  (d.place z, s)

/-- What is drawn from a seed, provided that the spread is finite. -/
def sample (d : Normal α) (source : Source α) (seed : UInt64)
    (draws : (source.State → α × source.State) → source.State → β × source.State) :
    Except (Fault α) β :=
  if Scalar.isFinite d.spread then .ok (draws (d.draw source) (source.start seed)).1
  else .error (.badSpread d.mean d.spread)

def vector (d : Normal α) (source : Source α) (seed : UInt64) (n : Nat) :
    Except (Fault α) (Vector α n) :=
  d.sample source seed fun draw => drawn draw n

def matrix (d : Normal α) (source : Source α) (seed : UInt64) (m n : Nat) :
    Except (Fault α) (Mat α m n) :=
  (d.vector source seed (m * n)).map Mat.mk

end Normal

end LeastSquares
