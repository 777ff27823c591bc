import LeastSquares.Solver

/-! # What a solve shows

Views of a course: the calls it made, the trace, and the solution or the fault it ended in.
-/

namespace LeastSquares

variable {α : Type} {m n : Nat}

/-- One line of a trace: the state after an attempt. -/
structure Record (α : Type) where
  iteration : Nat
  cost : α
  rho : α
  mu : α
  nu : α
  accepted : Bool

/-- The result of a solve that did not fail. -/
structure Solution (α : Type) (n : Nat) where
  point : Vector α n
  residuals : List α
  cost : α
  /-- The number of attempts, accepted or not. -/
  iterations : Nat
  evaluations : Nat
  reason : StopReason
  trace : Option (List (Record α))

namespace Solution

def converged (s : Solution α n) : Bool := s.reason.converged

end Solution

namespace Trail

/-- The state after the last attempt. -/
def last (start : State α m n) (t : Trail α m n) : State α m n :=
  (t.attempts.getLast?.map Attempt.next).getD start

/-- The points evaluated, that of a failed attempt included. -/
def trials (t : Trail α m n) : List (Vector α n) :=
  t.attempts.map Attempt.trial ++
    match t.ending with
    | .refused trial _ => [trial]
    | _ => []

end Trail

section Records

variable [Scalar α]

/-- What is taken down of the attempt of iteration `i`. -/
def Attempt.record (a : Attempt α m n) (i : Nat) : Record α where
  iteration := i
  cost := a.next.current.cost
  rho := a.ratio
  mu := a.next.damping.mu
  nu := a.next.damping.nu
  accepted := a.accepted

/-- The records of attempts in a row, the first of which was made in iteration `i`. -/
def Attempt.records (i : Nat) (attempts : List (Attempt α m n)) : List (Record α) :=
  (attempts.zipIdx i).map fun (a, i) => a.record i

/-- The records of all attempts, numbered from one. -/
def Trail.records (t : Trail α m n) : List (Record α) := Attempt.records 1 t.attempts

theorem Trail.length_records (t : Trail α m n) : t.records.length = t.attempts.length := by
  rw [records, Attempt.records, List.length_map, List.length_zipIdx]

theorem Trail.getElem?_records (t : Trail α m n) (k : Nat) :
    t.records[k]? = t.attempts[k]?.map fun a => a.record (k + 1) := by
  rw [records, Attempt.records, List.getElem?_map, List.getElem?_zipIdx, Nat.add_comm,
    Option.map_map]
  rfl

end Records

namespace Course

/-- The calls made to the problem. Each asks for a Jacobian. -/
def calls (c : Course α n) : List (Call α n) :=
  let points :=
    match c with
    | .invalid _ => []
    | .unusable start _ => [start]
    | .stationary _ start => [start.point]
    | .iterated _ start trail => start.current.point :: trail.trials
  points.map fun p => ⟨true, p⟩

variable [Scalar α]

/-- A solution at an iterate, after so many attempts and calls. -/
def solutionAt (reached : Iterate α m n) (iterations evaluations : Nat) (reason : StopReason)
    (trace : Option (List (Record α))) : Solution α n where
  point := reached.point
  residuals := reached.residuals.toList
  cost := reached.cost
  iterations
  evaluations
  reason
  trace

/-- The solution or the fault that the solve ended in, the solution with a trace if one is
wanted. -/
def outcome (recordTrace : Bool) (c : Course α n) : Except (Fault α) (Solution α n) :=
  match c with
  | .invalid fault => .error fault
  | .unusable _ fault => .error fault
  | .stationary _ start =>
    .ok (solutionAt start 0 c.calls.length .localMinimum (if recordTrace then some [] else none))
  | .iterated _ start trail =>
    match trail.ending with
    | .singular => .error (.notPositiveDefinite n)
    | .refused _ fault => .error fault
    | .stopped reason =>
      .ok (solutionAt (trail.last start).current trail.attempts.length c.calls.length reason
        (if recordTrace then some trail.records else none))

end Course

end LeastSquares
