import LeastSquares.Config.Basic
import LeastSquares.Problem
import LeastSquares.Step
import LeastSquares.Stopping

/-! # The solver

A solve is kept whole, as a `Course`: the point it started from, every attempt with the state it
led to, and how it ended. What a caller sees of it (the calls made to the problem, the solution or
the fault, the trace) are views of the course, so the solver itself knows nothing of printing or
recording.
-/

namespace LeastSquares

variable {α : Type} {m n : Nat}

/-- A point with what one evaluation at it gave: residuals, their sum of squares, and the
Gauss-Newton matrix and gradient made from the Jacobian. -/
structure Iterate (α : Type) (m n : Nat) where
  point : Vector α n
  residuals : Vector α m
  cost : α
  gram : Mat α n n
  gradient : Vector α n

/-- The state between two attempts. -/
structure State (α : Type) (m n : Nat) where
  current : Iterate α m n
  /-- What was current before the last accepted step, and the start itself before the first. -/
  previous : Iterate α m n
  damping : Damping α

/-- An attempt that was carried through. -/
structure Attempt (α : Type) (m n : Nat) where
  /-- Where the problem was evaluated. -/
  trial : Vector α n
  denominator : α
  ratio : α
  /-- The state that the decision on the step led to. -/
  next : State α m n

/-- How a sequence of attempts ended. -/
inductive Ending (α : Type) (n : Nat) where
  | stopped (reason : StopReason)
  /-- The damped matrix could not be factored, and nothing more was evaluated. -/
  | singular
  /-- The evaluation at a trial point could not be used. -/
  | refused (trial : Vector α n) (fault : Fault α)

structure Trail (α : Type) (m n : Nat) where
  attempts : List (Attempt α m n)
  ending : Ending α n

inductive Course (α : Type) (n : Nat) where
  /-- The configuration does not fit, and nothing was evaluated. -/
  | invalid (fault : Fault α)
  /-- The evaluation at the start could not be used. -/
  | unusable (start : Vector α n) (fault : Fault α)
  /-- The Jacobian vanishes at the start. -/
  | stationary (m : Nat) (start : Iterate α m n)
  | iterated (m : Nat) (start : State α m n) (trail : Trail α m n)

/-- What stays the same during a solve. -/
structure Setting (α : Type) (n : Nat) where
  problem : Problem α n
  style : DampingStyle
  box : Box α n
  tolerances : Tolerances α

namespace Iterate

variable [Scalar α]

def of (point : Vector α n) (residuals : Vector α m) (jacobian : Mat α m n) : Iterate α m n where
  point
  residuals
  cost := dot residuals residuals
  gram := jacobian.gram
  gradient := jacobian.transposeMulVec residuals

end Iterate

namespace State

variable [Scalar α]

def begin (start : Iterate α m n) (damping : Damping α) : State α m n :=
  ⟨start, start, damping⟩

/-- Moves on to an iterate reached by a step with gain ratio `rho`. -/
def accept (s : State α m n) (reached : Iterate α m n) (rho : α) : State α m n :=
  ⟨reached, s.current, s.damping.accept rho⟩

def reject (s : State α m n) : State α m n := { s with damping := s.damping.reject }

/-- The step from the current point under the current damping. -/
def step? (s : State α m n) (style : DampingStyle) : Option (Step α n) :=
  Step.damped? s.current.gram s.current.gradient (style.vector s.damping.mu s.current.gram)

end State

namespace Attempt

variable [Scalar α]

def accepted (a : Attempt α m n) : Bool := decide (Scalar.zero < a.ratio)

/-- What the stopping test says after the attempt. -/
def verdict (t : Tolerances α) (a : Attempt α m n) : Status :=
  t.verdict a.denominator a.ratio a.next.previous.cost a.next.current.cost
    a.next.previous.point.toList a.next.current.point.toList

end Attempt

namespace Setting

variable [Scalar α]

/-- The decision on a step to `trial`, where the problem answered `e`, in iteration `i`. The
Jacobian is looked at only if the step is accepted. -/
def judge (s : State α m n) (step : Step α n) (trial : Vector α n) (e : Evaluation α) (i : Nat) :
    Except (Fault α) (Attempt α m n) :=
  if h : e.residuals.size = m then
    let rho := Damping.gainRatio s.current.cost e.cost step.denominator
    if Scalar.zero < rho then
      match e.jacobianOf m n with
      | .error fault => .error fault
      | .ok jacobian =>
        .ok ⟨trial, step.denominator, rho,
          s.accept (.of trial ⟨e.residuals, h⟩ jacobian) rho⟩
    else .ok ⟨trial, step.denominator, rho, s.reject⟩
  else .error (.residualCount m e.residuals.size i)

/-- The attempt of iteration `i`, or how the solve ended in it. -/
def attempt (c : Setting α n) (i : Nat) (s : State α m n) :
    Except (Ending α n) (Attempt α m n) :=
  match s.step? c.style with
  | none => .error .singular
  | some step =>
    let trial := c.box.clip (plus s.current.point step.move)
    match c.problem i trial true with
    | .error fault => .error (.refused trial fault)
    | .ok e =>
      match judge s step trial e i with
      | .error fault => .error (.refused trial fault)
      | .ok a => .ok a

/-- At most so many further attempts, the first of them in iteration `i`. -/
def iterate (c : Setting α n) : (remaining i : Nat) → State α m n → Trail α m n
  | 0, _, _ => ⟨[], .stopped .iterationCap⟩
  | remaining + 1, i, s =>
    match c.attempt i s with
    | .error ending => ⟨[], ending⟩
    | .ok a =>
      match a.verdict c.tolerances with
      | .stopped reason => ⟨[a], .stopped reason⟩
      | .running =>
        let rest := c.iterate remaining (i + 1) a.next
        ⟨a :: rest.attempts, rest.ending⟩

end Setting

/-- Solves a problem from a starting point. The start is evaluated as it is, within its bounds or
not. -/
def minimize [Scalar α] (config : Config α) (problem : Problem α n) (x : Vector α n) :
    Course α n :=
  match config.validate n with
  | .error fault => .invalid fault
  | .ok box =>
    match problem 0 x true with
    | .error fault => .unusable x fault
    | .ok e =>
      match e.jacobianOf e.residuals.size n with
      | .error fault => .unusable x fault
      | .ok jacobian =>
        let start : Iterate α e.residuals.size n := .of x e.vector jacobian
        match Damping.start? config.tau start.gram.diagonal.toList with
        | none => .stationary _ start
        | some damping =>
          let setting : Setting α n :=
            { problem, style := config.damping, box
              tolerances := .share config.parameterTolerance config.objectiveTolerance n }
          let s := State.begin start damping
          .iterated _ s (setting.iterate config.maxIterations 1 s)

end LeastSquares
