import LeastSquares.Fault
import LeastSquares.Linear.Mat

/-! # Problems and the calls made to them

A problem answers residuals, and perhaps a Jacobian, at a point. It may answer differently each
time, so it is a function of the number of the call too. Computations that consult a problem are
`Run`s: they keep the calls they made, in order, whether they succeed or not.
-/

namespace LeastSquares

variable {α β γ : Type} {n : Nat}

/-- What a problem answers at a point. How many residuals there are and what shape the Jacobian has
is the problem's affair, and is checked by whoever asked. -/
structure Evaluation (α : Type) where
  residuals : Array α
  jacobian : Option (Table α)

namespace Evaluation

def vector (e : Evaluation α) : Vector α e.residuals.size := ⟨e.residuals, rfl⟩

/-- The sum of squared residuals. -/
def cost [Scalar α] (e : Evaluation α) : α :=
  dot e.vector e.vector

/-- The Jacobian, which must have been answered and have the wanted shape. -/
def jacobianOf (e : Evaluation α) (m n : Nat) : Except (Fault α) (Mat α m n) :=
  match e.jacobian with
  | none => .error .jacobianMissing
  | some t =>
    match t.toMat? m n with
    | none => .error (.jacobianShape m n t.height t.width)
    | some j => .ok j

theorem jacobianOf_ofMat {m : Nat} (residuals : Array α) (jacobian : Mat α m n) :
    jacobianOf ⟨residuals, some (.ofMat jacobian)⟩ m n = .ok jacobian := by
  rw [jacobianOf]
  dsimp only
  rw [Table.toMat?_ofMat]

end Evaluation

/-- A least squares problem with `n` parameters: the answer to the `k`-th call, counted from zero,
at a point, with or without a Jacobian. -/
abbrev Problem (α : Type) (n : Nat) :=
  Nat → Vector α n → Bool → Except (Fault α) (Evaluation α)

structure Call (α : Type) (n : Nat) where
  wantsJacobian : Bool
  point : Vector α n

/-- What a computation noted on its way, in order, and how it ended. -/
structure Logged (ε α β : Type) where
  log : List ε
  outcome : Except (Fault α) β

namespace Logged

variable {ε : Type}

/-- Ends at once, well or badly, without a note. -/
def settle (outcome : Except (Fault α) β) : Logged ε α β := ⟨[], outcome⟩

/-- Goes on with the result of a computation, unless it failed. -/
def andThen (r : Logged ε α β) (next : β → Logged ε α γ) : Logged ε α γ :=
  match r.outcome with
  | .error fault => ⟨r.log, .error fault⟩
  | .ok b => ⟨r.log ++ (next b).log, (next b).outcome⟩

instance : Monad (Logged ε α) where
  pure b := settle (.ok b)
  bind := andThen

/-- Asks a problem, and notes the call that is made. -/
def ask (note : Call α n → ε) (problem : Problem α n) (k : Nat) (x : Vector α n)
    (wantsJacobian : Bool) : Logged ε α (Evaluation α) :=
  ⟨[note ⟨wantsJacobian, x⟩], problem k x wantsJacobian⟩

/-- Computations one after the other, collecting the results. -/
def tabulate : (m : Nat) → (Fin m → Logged ε α β) → Logged ε α (Vector β m)
  | 0, _ => pure #v[]
  | m + 1, f => do
    let done ← tabulate m fun i => f i.castSucc
    let last ← f (Fin.last m)
    return done.push last

theorem bind_of_ok {r : Logged ε α β} {b : β} (hr : r.outcome = .ok b) (next : β → Logged ε α γ) :
    r >>= next = ⟨r.log ++ (next b).log, (next b).outcome⟩ := by
  show r.andThen next = _
  rw [andThen, hr]

theorem bind_of_error {r : Logged ε α β} {fault : Fault α} (hr : r.outcome = .error fault)
    (next : β → Logged ε α γ) : r >>= next = ⟨r.log, .error fault⟩ := by
  show r.andThen next = _
  rw [andThen, hr]

theorem settle_ok_bind (b : β) (next : β → Logged ε α γ) : settle (.ok b) >>= next = next b := rfl

theorem settle_error_bind (fault : Fault α) (next : β → Logged ε α γ) :
    settle (.error fault) >>= next = settle (.error fault) :=
  rfl

theorem settle_bind_pure (outcome : Except (Fault α) β) (f : β → γ) :
    (settle outcome >>= fun b => pure (f b) : Logged ε α γ) = settle (outcome.map f) := by
  cases outcome with
  | error fault => rfl
  | ok b => rfl

end Logged

/-- A computation that notes its calls and nothing else. -/
abbrev Run (α : Type) (n : Nat) : Type → Type := Logged (Call α n) α

namespace Run

abbrev calls (r : Run α n β) : List (Call α n) := r.log

def ask (problem : Problem α n) (k : Nat) (x : Vector α n) (wantsJacobian : Bool) :
    Run α n (Evaluation α) :=
  Logged.ask id problem k x wantsJacobian

end Run

end LeastSquares
