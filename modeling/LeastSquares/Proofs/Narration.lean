import Mathlib
import LeastSquares.Proofs.Failure
import LeastSquares.Proofs.Prefix

/-! # Solves that report as they go

A course is what is left of a solve when it is over, and calls, lines and trace are read off it.
Here a solve reports while it is at work: it prints a row and takes down a record as soon as an
attempt is decided, and leaves off wherever something fails. What it shows is the same, at every
level and with a trace or without, so nothing that is reported reaches back into what is computed.
The arithmetic is arbitrary.
-/

namespace LeastSquares

variable {α β γ : Type} {m n : Nat}

/-- What can be seen of a solve at work. -/
inductive Event (α : Type) (n : Nat) where
  | called (call : Call α n)
  | printed (line : String)

/-- A computation that notes all that can be seen of it. -/
abbrev Session (α : Type) (n : Nat) : Type → Type := Logged (Event α n) α

namespace Event

def call? : Event α n → Option (Call α n)
  | called call => some call
  | printed _ => none

def line? : Event α n → Option String
  | called _ => none
  | printed line => some line

end Event

namespace Session

def ask (problem : Problem α n) (k : Nat) (x : Vector α n) (wantsJacobian : Bool) :
    Session α n (Evaluation α) :=
  Logged.ask .called problem k x wantsJacobian

def print (lines : List String) : Session α n Unit := ⟨lines.map .printed, .ok ()⟩

def calls (r : Session α n β) : List (Call α n) := r.log.filterMap Event.call?

def lines (r : Session α n β) : List String := r.log.filterMap Event.line?

/-- What a computation shows, whatever the order of its calls among its lines. -/
structure Shows (r : Session α n β) (calls : List (Call α n)) (lines : List String)
    (outcome : Except (Fault α) β) : Prop where
  calls_eq : r.calls = calls
  lines_eq : r.lines = lines
  outcome_eq : r.outcome = outcome

theorem shows_settle (outcome : Except (Fault α) β) :
    Shows (Logged.settle outcome : Session α n β) [] [] outcome :=
  ⟨rfl, rfl, rfl⟩

theorem shows_pure (b : β) : (pure b : Session α n β).Shows [] [] (.ok b) := shows_settle _

theorem shows_ask (problem : Problem α n) (k : Nat) (x : Vector α n) (wantsJacobian : Bool) :
    (ask problem k x wantsJacobian).Shows [⟨wantsJacobian, x⟩] [] (problem k x wantsJacobian) :=
  ⟨rfl, rfl, rfl⟩

theorem shows_print (lines : List String) :
    (print lines : Session α n Unit).Shows [] lines (.ok ()) := by
  refine ⟨?_, ?_, rfl⟩
  · simp [calls, print, List.filterMap_map, Function.comp_def, Event.call?]
  · simp [Session.lines, print, List.filterMap_map, Function.comp_def, Event.line?]

namespace Shows

variable {r : Session α n β} {next : β → Session α n γ} {calls calls' : List (Call α n)}
  {lines lines' : List String}

/-- Nothing follows a failure. -/
theorem bind_error {fault : Fault α} (hr : r.Shows calls lines (.error fault)) :
    (r >>= next).Shows calls lines (.error fault) := by
  rw [Logged.bind_of_error hr.outcome_eq]
  exact ⟨hr.calls_eq, hr.lines_eq, rfl⟩

theorem bind_ok {b : β} {outcome : Except (Fault α) γ} (hr : r.Shows calls lines (.ok b))
    (hnext : (next b).Shows calls' lines' outcome) :
    (r >>= next).Shows (calls ++ calls') (lines ++ lines') outcome := by
  rw [Logged.bind_of_ok hr.outcome_eq]
  refine ⟨?_, ?_, hnext.outcome_eq⟩
  · rw [← hr.calls_eq, ← hnext.calls_eq]
    exact List.filterMap_append
  · rw [← hr.lines_eq, ← hnext.lines_eq]
    exact List.filterMap_append

end Shows

/-- Lines printed on the way to a result. -/
theorem shows_print_return (lines : List String) (b : β) :
    (do print lines; return b : Session α n β).Shows [] lines (.ok b) := by
  have hprint : (do print lines; return b : Session α n β).Shows ([] ++ []) (lines ++ []) (.ok b) :=
    (shows_print lines).bind_ok (shows_pure b)
  rwa [List.append_nil, List.append_nil] at hprint

end Session

variable [Scalar α]

namespace Trail

/-- What a trail from `s` comes to after `done` earlier attempts and so many evaluations, which have
left records if a trace is wanted. -/
def conclusion (t : Trail α m n) (done evaluations : Nat) (s : State α m n)
    (trace : Option (List (Record α))) : Except (Fault α) (Solution α n) :=
  match t.ending with
  | .singular => .error (.notPositiveDefinite n)
  | .refused _ fault => .error fault
  | .stopped reason =>
    .ok (Course.solutionAt (t.last s).current (done + t.attempts.length)
      (evaluations + t.attempts.length) reason
      (trace.map (· ++ Attempt.records (done + 1) t.attempts)))

/-- A trail in front of which one more attempt was made. -/
def after (a : Attempt α m n) (rest : Trail α m n) : Trail α m n :=
  ⟨a :: rest.attempts, rest.ending⟩

variable (a : Attempt α m n) (rest : Trail α m n)

omit [Scalar α] in
theorem last_after (s : State α m n) : (after a rest).last s = rest.last a.next := by
  unfold last after
  rw [List.getLast?_cons]
  cases rest.attempts.getLast? <;> rfl

theorem records_after (i : Nat) :
    Attempt.records i (after a rest).attempts =
      a.record i :: Attempt.records (i + 1) rest.attempts :=
  rfl

/-- When no attempt is made there is nothing to add. -/
theorem conclusion_nil (reason : StopReason) (done evaluations : Nat) (s : State α m n)
    (trace : Option (List (Record α))) :
    (⟨[], .stopped reason⟩ : Trail α m n).conclusion done evaluations s trace =
      .ok (Course.solutionAt s.current done evaluations reason trace) := by
  cases trace with
  | none => rfl
  | some records => simp [conclusion, Attempt.records, last]

/-- What comes of the attempts that are left comes of all of them. -/
theorem conclusion_after (done evaluations : Nat) (s : State α m n)
    (trace : Option (List (Record α))) :
    (after a rest).conclusion done evaluations s trace =
      rest.conclusion (done + 1) (evaluations + 1) a.next
        (trace.map (· ++ [a.record (done + 1)])) := by
  have hlength : ∀ k, k + (after a rest).attempts.length = k + 1 + rest.attempts.length := by
    intro k
    simp [after, Nat.add_comm 1, Nat.add_assoc]
  unfold conclusion
  rw [hlength, hlength, last_after, records_after]
  cases trace with
  | none => rfl
  | some records => simp [after]

end Trail

/-- The outcome of a course is what comes of its attempts when none was made before. -/
theorem Course.outcome_eq_conclusion (start : State α m n) (trail : Trail α m n)
    (recordTrace : Bool) :
    (iterated m start trail).outcome recordTrace =
      trail.conclusion 0 1 start (if recordTrace then some [] else none) := by
  unfold Trail.conclusion
  cases hending : trail.ending with
  | singular => exact outcome_of_singular hending recordTrace
  | refused trial fault => exact outcome_of_refused hending recordTrace
  | stopped reason =>
      rw [outcome_of_stopped hending, length_calls_of_stopped start hending, Nat.add_comm]
      cases recordTrace <;> simp [Trail.records]

variable [NumberText α]

omit [Scalar α] in
theorem Display.rows_cons (level : DisplayLevel) (r : Record α) (records : List (Record α)) :
    rows level (r :: records) = rows level [r] ++ rows level records := by
  unfold rows
  split
  · rfl
  · rfl

theorem Display.rows_records_nil (level : DisplayLevel) (i : Nat) :
    rows level (Attempt.records i ([] : List (Attempt α m n))) = [] :=
  ite_self []

namespace Setting

/-- One iteration of a solve at work, after so many evaluations. -/
def round (c : Setting α n) (level : DisplayLevel) (i : Nat) (s : State α m n)
    (evaluations : Nat) : Session α n (Attempt α m n × Nat) := do
  let step ← match s.step? c.style with
    | none => Logged.settle (.error (.notPositiveDefinite n))
    | some step => pure step
  let trial := c.box.clip (plus s.current.point step.move)
  let e ← Session.ask c.problem i trial true
  let evaluations := evaluations + 1
  let a ← Logged.settle (judge s step trial e i)
  Session.print (Display.rows level [a.record i])
  return (a, evaluations)

/-- At most so many further iterations, when some are done. As many as `cap` are reported unless
they stop before. The evaluations are counted as they are made, and the records are collected if a
trace is wanted. -/
def narrate (c : Setting α n) (level : DisplayLevel) (cap : Nat) :
    (remaining done evaluations : Nat) → State α m n → Option (List (Record α)) →
      Session α n (Solution α n)
  | 0, _, evaluations, s, trace =>
    return Course.solutionAt s.current cap evaluations .iterationCap trace
  | remaining + 1, done, evaluations, s, trace => do
    let (a, evaluations) ← c.round level (done + 1) s evaluations
    let trace := trace.map (· ++ [a.record (done + 1)])
    match a.verdict c.tolerances with
    | .stopped reason =>
      return Course.solutionAt a.next.current (done + 1) evaluations reason trace
    | .running => c.narrate level cap remaining (done + 1) evaluations a.next trace

omit [NumberText α] in
theorem trial_of_judge {s : State α m n} {step : Step α n} {trial : Vector α n}
    {e : Evaluation α} {i : Nat} {a : Attempt α m n} (hjudge : judge s step trial e i = .ok a) :
    a.trial = trial := by
  unfold judge at hjudge
  split at hjudge
  · dsimp only at hjudge
    split at hjudge
    · split at hjudge
      · cases hjudge
      · cases hjudge
        rfl
    · cases hjudge
      rfl
  · cases hjudge

/-- An iteration shows what its attempt came to: nothing if no step could be made, the call if it
was of no use, and else the call and a row. -/
theorem round_shows (c : Setting α n) (level : DisplayLevel) (i : Nat) (s : State α m n)
    (evaluations : Nat) :
    (c.attempt i s = .error .singular ∧
      (c.round level i s evaluations).Shows [] [] (.error (.notPositiveDefinite n))) ∨
    (∃ trial fault, c.attempt i s = .error (.refused trial fault) ∧
      (c.round level i s evaluations).Shows [⟨true, trial⟩] [] (.error fault)) ∨
    ∃ a, c.attempt i s = .ok a ∧
      (c.round level i s evaluations).Shows [⟨true, a.trial⟩] (Display.rows level [a.record i])
        (.ok (a, evaluations + 1)) := by
  unfold attempt round
  cases s.step? c.style with
  | none => exact Or.inl ⟨rfl, (Session.shows_settle _).bind_error⟩
  | some step =>
      refine Or.inr ?_
      let trial := c.box.clip (plus s.current.point step.move)
      have hask := Session.shows_ask c.problem i trial true
      dsimp only
      cases hanswer : c.problem i trial true with
      | error fault =>
          rw [hanswer] at hask
          exact Or.inl ⟨trial, fault, rfl, (Session.shows_pure step).bind_ok hask.bind_error⟩
      | ok e =>
          rw [hanswer] at hask
          dsimp only
          cases hjudge : judge s step trial e i with
          | error fault =>
              refine Or.inl ⟨trial, fault, rfl, (Session.shows_pure step).bind_ok ?_⟩
              refine hask.bind_ok ?_
              rw [hjudge]
              exact (Session.shows_settle _).bind_error
          | ok a =>
              refine Or.inr ⟨a, rfl, (Session.shows_pure step).bind_ok ?_⟩
              rw [trial_of_judge hjudge]
              refine hask.bind_ok ?_
              rw [hjudge]
              exact (Session.shows_pure a).bind_ok (Session.shows_print_return _ _)

/-- The iterations that are left show what comes of their attempts, whatever was done before. -/
theorem narrate_shows {c : Setting α n} (level : DisplayLevel) {cap remaining done : Nat}
    (hcap : done + remaining = cap) (evaluations : Nat) (s : State α m n)
    (trace : Option (List (Record α))) :
    (c.narrate level cap remaining done evaluations s trace).Shows
      ((c.iterate remaining (done + 1) s).trials.map (Call.mk true))
      (Display.rows level (Attempt.records (done + 1) (c.iterate remaining (done + 1) s).attempts))
      ((c.iterate remaining (done + 1) s).conclusion done evaluations s trace) := by
  induction remaining generalizing done evaluations s trace with
  | zero =>
      obtain rfl : done = cap := hcap
      unfold narrate iterate
      rw [Trail.conclusion_nil, Display.rows_records_nil]
      exact Session.shows_pure _
  | succ remaining ih =>
      unfold narrate
      rcases c.round_shows level (done + 1) s evaluations with ⟨hfailed, hround⟩ |
        ⟨trial, fault, hfailed, hround⟩ | ⟨a, ha, hround⟩
      · rw [iterate_of_error hfailed, Display.rows_records_nil]
        exact hround.bind_error
      · rw [iterate_of_error hfailed, Display.rows_records_nil]
        exact hround.bind_error
      · cases hverdict : a.verdict c.tolerances with
        | stopped reason =>
            have htrail : c.iterate (remaining + 1) (done + 1) s =
                .after a ⟨[], .stopped reason⟩ :=
              iterate_of_stopped ha hverdict
            rw [htrail, Trail.records_after, Display.rows_cons, Display.rows_records_nil,
              Trail.conclusion_after, Trail.conclusion_nil]
            refine hround.bind_ok ?_
            dsimp only
            rw [hverdict]
            exact Session.shows_pure _
        | running =>
            have htrail : c.iterate (remaining + 1) (done + 1) s =
                .after a (c.iterate remaining (done + 1 + 1) a.next) :=
              iterate_of_running ha hverdict
            rw [htrail, Trail.records_after, Display.rows_cons, Trail.conclusion_after]
            refine hround.bind_ok ?_
            dsimp only
            rw [hverdict]
            exact ih (by omega) (evaluations + 1) a.next _

end Setting

/-- A solve that prints its table, counts its evaluations and takes down its records as it goes. -/
def narrateCourse (config : Config α) (problem : Problem α n) (x : Vector α n) :
    Session α n (Solution α n) := do
  let box ← Logged.settle (config.validate n)
  let e ← Session.ask problem 0 x true
  let evaluations := 1
  let jacobian ← Logged.settle (e.jacobianOf e.residuals.size n)
  let start : Iterate α e.residuals.size n := .of x e.vector jacobian
  let trace := if config.recordTrace then some [] else none
  match Damping.start? config.tau start.gram.diagonal.toList with
  | none => return Course.solutionAt start 0 evaluations .localMinimum trace
  | some damping => do
    let s := State.begin start damping
    Session.print (Display.opening config.display s)
    (config.setting problem box).narrate config.display config.maxIterations config.maxIterations 0
      evaluations s trace

/-- A solve that reports as it goes, and sums up at the end. -/
def narrate (config : Config α) (problem : Problem α n) (x : Vector α n) :
    Session α n (Solution α n) := do
  let solution ← narrateCourse config problem x
  Session.print (Display.summary config solution)
  return solution

theorem narrateCourse_shows (config : Config α) (problem : Problem α n) (x : Vector α n) :
    (narrateCourse config problem x).Shows (minimize config problem x).calls
      (Display.table config.display (minimize config problem x))
      ((minimize config problem x).outcome config.recordTrace) := by
  unfold narrateCourse
  cases hvalid : config.validate n with
  | error fault =>
      rw [minimize_eq_invalid_iff.mpr hvalid]
      exact (Session.shows_settle _).bind_error
  | ok box =>
      have hask := Session.shows_ask problem 0 x true
      rw [Logged.settle_ok_bind]
      cases hanswer : problem 0 x true with
      | error fault =>
          rw [minimize_eq_unusable_iff.mpr ⟨rfl, box, hvalid, Or.inl hanswer⟩]
          rw [hanswer] at hask
          exact hask.bind_error
      | ok e =>
          rw [hanswer] at hask
          cases hjacobian : e.jacobianOf e.residuals.size n with
          | error fault =>
              rw [minimize_eq_unusable_iff.mpr
                ⟨rfl, box, hvalid, Or.inr ⟨e, hanswer, (e.jacobianOf_eq_error_iff _).mp hjacobian⟩⟩]
              refine hask.bind_ok ?_
              rw [hjacobian]
              exact (Session.shows_settle _).bind_error
          | ok jacobian =>
              cases hdamping : Damping.start? config.tau jacobian.gram.diagonal.toList with
              | none =>
                  rw [minimize_eq_stationary hvalid hanswer hjacobian hdamping]
                  refine hask.bind_ok ?_
                  rw [hjacobian, Logged.settle_ok_bind]
                  dsimp only [Iterate.of]
                  rw [hdamping]
                  exact Session.shows_pure _
              | some damping =>
                  rw [minimize_eq_iterated hvalid hanswer rfl hjacobian hdamping,
                    Course.outcome_eq_conclusion]
                  refine hask.bind_ok ?_
                  rw [hjacobian, Logged.settle_ok_bind]
                  dsimp only [Iterate.of]
                  rw [hdamping]
                  exact (Session.shows_print _).bind_ok
                    (Setting.narrate_shows config.display (Nat.zero_add _) 1 _ _)

/-- A solve that reports as it goes shows what can be read off the course afterwards. -/
theorem narrate_shows (config : Config α) (problem : Problem α n) (x : Vector α n) :
    (narrate config problem x).Shows (minimize config problem x).calls
      (Display.lines config (minimize config problem x))
      ((minimize config problem x).outcome config.recordTrace) := by
  have hcourse := narrateCourse_shows config problem x
  unfold narrate Display.lines
  cases houtcome : (minimize config problem x).outcome config.recordTrace with
  | error fault =>
      rw [houtcome] at hcourse
      dsimp only
      rw [List.append_nil]
      exact hcourse.bind_error
  | ok solution =>
      rw [houtcome] at hcourse
      dsimp only
      rw [← List.append_nil (minimize config problem x).calls]
      exact hcourse.bind_ok (Session.shows_print_return _ solution)

omit [NumberText α] in
/-- A trace that is wanted is added to the solution, and nothing else depends on the wish. -/
theorem Course.outcome_eq_map (course : Course α n) (recordTrace : Bool) :
    course.outcome recordTrace = (course.outcome false).map fun solution =>
      { solution with trace := if recordTrace then some course.records else none } := by
  cases course with
  | invalid fault => rfl
  | unusable start fault => rfl
  | stationary m start => rfl
  | iterated m start trail =>
      unfold outcome
      dsimp only
      cases trail.ending with
      | stopped reason => rfl
      | singular => rfl
      | refused trial fault => rfl

/-- The level of what is printed and the wish for a trace do not reach into the solve. With any of
them the same calls are made, the same fault is returned, or the same solution up to its trace, and
the trace is there exactly if it is wanted, with the same records at every level. So it is for a
solve that prints and records between its steps as for the course that everything is read off. -/
theorem minimize_ignores_reporting (config : Config α) (problem : Problem α n) (x : Vector α n)
    (display : DisplayLevel) (recordTrace : Bool) :
    let course := minimize config problem x
    let reporting : Config α := { config with display, recordTrace }
    let outcome := (course.outcome false).map fun solution =>
      { solution with trace := if recordTrace then some course.records else none }
    (minimize reporting problem x).calls = course.calls ∧
      (minimize reporting problem x).outcome reporting.recordTrace = outcome ∧
      (narrate reporting problem x).Shows course.calls (Display.lines reporting course)
        outcome := by
  intro course reporting outcome
  -- Neither choice is looked at before something is reported.
  have hcourse : minimize reporting problem x = course := rfl
  have houtcome : course.outcome reporting.recordTrace = outcome :=
    course.outcome_eq_map recordTrace
  rw [hcourse]
  refine ⟨rfl, houtcome, ?_⟩
  rw [← houtcome, ← hcourse]
  exact narrate_shows reporting problem x

end LeastSquares
