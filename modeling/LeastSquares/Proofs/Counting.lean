import Mathlib
import LeastSquares.Proofs.Narration

/-! # Counting

A solve that stops has evaluated its start and then one point in each iteration, always with the
Jacobian, and the counter that it advances with every evaluation says so. Where the next point lies
follows from what was answered so far: the call accepted last gives the normal equations, and the
gain ratios give the damping. A trace has a record for each iteration. The arithmetic is arbitrary.
-/

namespace LeastSquares

variable {α : Type} [Scalar α] {m n : Nat}

namespace Damping

/-- The damping after attempts with these gain ratios. -/
def after (d : Damping α) (ratios : List α) : Damping α := ratios.foldl update d

theorem after_take_succ (d : Damping α) {ratios : List α} {k : Nat} {rho : α}
    (hrho : ratios[k]? = some rho) :
    d.after (ratios.take (k + 1)) = (d.after (ratios.take k)).update rho := by
  rw [after, List.take_add_one, hrho, List.foldl_append]
  rfl

end Damping

/-- The gain ratios of the attempts, in order. -/
def Trail.ratios (trail : Trail α m n) : List α := trail.attempts.map Attempt.ratio

/-- Whatever is decided on an attempt, its gain ratio updates the damping. -/
theorem Attempt.Made.damping_eq {c : Setting α n} {i : Nat} {s : State α m n} {step : Step α n}
    {e : Evaluation α} {a : Attempt α m n} (ha : a.Made c i s step e) :
    a.next.damping = s.damping.update a.ratio := by
  unfold Damping.update
  cases haccepted : a.accepted with
  | true =>
      obtain ⟨_, _, hnext⟩ := ha.next_of_accepted haccepted
      rw [if_pos (of_decide_eq_true haccepted), hnext]
      rfl
  | false =>
      rw [if_neg (of_decide_eq_false haccepted), ha.next_of_rejected haccepted]
      rfl

omit [Scalar α] in
theorem Trail.ratios_getElem? {trail : Trail α m n} {k : Nat} {a : Attempt α m n}
    (ha : trail.attempts[k]? = some a) : trail.ratios[k]? = some a.ratio := by
  rw [ratios, List.getElem?_map, ha]
  rfl

/-- After `k` attempts the damping was updated by their gain ratios. -/
theorem Setting.Runs.damping_eq {c : Setting α n} {remaining i : Nat} {start s : State α m n}
    {trail : Trail α m n} (hrun : c.Runs remaining i start trail) {k : Nat}
    (hs : (trail.states start)[k]? = some s) :
    s.damping = start.damping.after (trail.ratios.take k) := by
  refine hrun.invariant (P := fun k s => s.damping = start.damping.after (trail.ratios.take k))
    rfl ?_ hs
  intro k s a _ ha hattempt hdamping
  obtain ⟨step, e, hmade⟩ := made_of_attempt hattempt
  rw [hmade.damping_eq, hdamping, Damping.after_take_succ _ (Trail.ratios_getElem? ha)]

namespace Course

/-- The gain ratios of all attempts, in order. -/
def ratios : Course α n → List α
  | .iterated _ _ trail => trail.ratios
  | _ => []

/-- Call `k + 1` is made where the step from the call accepted last leads, brought to its limits.
The step solves the normal equations of that call, under the damping that is left of `d` after `k`
updates. The answer to the new call gives the gain ratio, and that decides. -/
structure Tried (style : DampingStyle) (problem : Problem α n) (box : Box α n) (d : Damping α)
    (course : Course α n) (k j : Nat) (it : Iterate α m n) (step : Step α n) (e : Evaluation α) :
    Prop where
  last : LastAccepted course.decisions k j
  recalls : it.Recalls problem course.calls j
  step_eq : Step.damped? it.gram it.gradient
    (style.vector (d.after (course.ratios.take k)).mu it.gram) = some step
  call_eq : course.calls[k + 1]? = some ⟨true, box.clip (plus it.point step.move)⟩
  answer_eq : problem (k + 1) (box.clip (plus it.point step.move)) true = .ok e
  ratio_eq : course.ratios[k]? = some (Damping.gainRatio it.cost e.cost step.denominator)
  decision_eq : course.decisions[k]? =
    some (decide (Scalar.zero < Damping.gainRatio it.cost e.cost step.denominator))

omit [Scalar α] in
theorem wantsJacobian_of_mem_calls {course : Course α n} {call : Call α n}
    (hcall : call ∈ course.calls) : call.wantsJacobian = true := by
  obtain ⟨p, _, rfl⟩ := List.mem_map.mp hcall
  rfl

end Course

/-- A record tells of iteration `k + 1`: the decision on it, and what the call accepted last cost
after it. -/
structure Record.Tells (problem : Problem α n) (course : Course α n) (k : Nat) (r : Record α) :
    Prop where
  iteration_eq : r.iteration = k + 1
  ratio_eq : course.ratios[k]? = some r.rho
  accepted_eq : r.accepted = decide (Scalar.zero < r.rho)
  decision_eq : course.decisions[k]? = some r.accepted
  cost_eq : ∃ j p e, LastAccepted course.decisions (k + 1) j ∧ course.calls[j]? = some ⟨true, p⟩ ∧
    problem j p true = .ok e ∧ r.cost = e.cost

section Solve

variable {config : Config α} {problem : Problem α n} {x : Vector α n} {box : Box α n}
  {start s : State α m n} {trail : Trail α m n} {k : Nat} {a : Attempt α m n}

/-- Every attempt is tried from the call accepted last. -/
theorem exists_tried (hvalid : config.validate n = .ok box)
    (hcourse : minimize config problem x = .iterated m start trail)
    (hs : (trail.states start)[k]? = some s) (ha : trail.attempts[k]? = some a) :
    ∃ j step e, (Course.iterated m start trail).Tried config.damping problem box start.damping k j
      s.current step e := by
  obtain ⟨box', _, _, hlaunch, hrun⟩ := exists_launch hcourse
  obtain rfl : box = box' := Except.ok.inj (hvalid.symm.trans hlaunch.validate_eq)
  obtain ⟨j, i, hcoherent⟩ := exists_coherent hcourse hs
  obtain ⟨step, e, hmade⟩ := Setting.made_of_attempt (hrun.attempt_eq hs ha)
  have hanswer := hmade.answer_eq
  rw [hmade.trial_eq] at hanswer
  refine ⟨j, step, e, hcoherent.last, hcoherent.current, ?_, ?_, hanswer, ?_, ?_⟩
  · rw [Course.ratios, ← hrun.damping_eq hs]
    exact hmade.step_eq
  · rw [Course.calls_succ ha, hmade.trial_eq]
    rfl
  · rw [Course.ratios, Trail.ratios_getElem? ha, hmade.ratio_eq]
  · rw [Course.decisions_getElem? start ha, Attempt.accepted, hmade.ratio_eq]

theorem tells_of_records (hcourse : minimize config problem x = .iterated m start trail)
    {r : Record α} (hr : trail.records[k]? = some r) :
    r.Tells problem (.iterated m start trail) k := by
  rw [Trail.getElem?_records] at hr
  obtain ⟨a, ha, rfl⟩ := Option.map_eq_some_iff.mp hr
  refine ⟨rfl, Trail.ratios_getElem? ha, rfl, Course.decisions_getElem? start ha, ?_⟩
  obtain ⟨j, _, hcoherent⟩ := exists_coherent hcourse (Trail.states_succ ha)
  obtain ⟨e, jacobian, hanswers⟩ := hcoherent.current.answers
  exact ⟨j, _, e, hcoherent.last, hcoherent.current.call, hanswers.answer_eq,
    hanswers.cost_eq_cost⟩

/-- The last record tells what the solution costs. -/
theorem Trail.cost_of_last_record (start : State α m n) {trail : Trail α m n} {r : Record α}
    (hr : trail.records.getLast? = some r) : r.cost = (trail.last start).current.cost := by
  rw [List.getLast?_eq_getElem?, length_records, getElem?_records,
    ← List.getLast?_eq_getElem?] at hr
  obtain ⟨a, ha, rfl⟩ := Option.map_eq_some_iff.mp hr
  rw [last, ha]
  rfl

end Solve

/-- What a course shows of a solve that stopped: how often the problem was evaluated and where. -/
structure Course.Counted (config : Config α) (problem : Problem α n) (x : Vector α n)
    (course : Course α n) (solution : Solution α n) : Prop where
  evaluations_eq : solution.evaluations = solution.iterations + 1
  length_calls : course.calls.length = solution.iterations + 1
  wantsJacobian : ∀ call ∈ course.calls, call.wantsJacobian = true
  call_zero : course.calls[0]? = some ⟨true, x⟩
  tried : ∀ k, k < solution.iterations → ∃ (m : Nat) (first it : Iterate α m n) (box : Box α n)
    (d : Damping α) (j : Nat) (step : Step α n) (e : Evaluation α),
    config.validate n = .ok box ∧ first.Recalls problem course.calls 0 ∧
    Damping.start? config.tau first.gram.diagonal.toList = some d ∧
    course.Tried config.damping problem box d k j it step e
  iterations_le : solution.iterations ≤ config.maxIterations
  iterations_eq_cap : solution.reason = .iterationCap → solution.iterations = config.maxIterations

/-- A solve at work comes to the solution that its course shows. The evaluations it has counted are
the calls it has made, and each of these asked for the Jacobian. -/
structure Session.Counts (session : Session α n (Solution α n)) (course : Course α n)
    (solution : Solution α n) : Prop where
  outcome_eq : session.outcome = .ok solution
  calls_eq : session.calls = course.calls
  evaluations_eq : solution.evaluations = session.calls.length
  wantsJacobian : ∀ call ∈ session.calls, call.wantsJacobian = true

/-- A trace that has one record for each iteration, up to the solution. -/
structure Solution.Traced (problem : Problem α n) (course : Course α n) (solution : Solution α n)
    (records : List (Record α)) : Prop where
  length_eq : records.length = solution.iterations
  tells : ∀ (k : Nat) (r : Record α), records[k]? = some r → r.Tells problem course k
  last_cost : ∀ r : Record α, records.getLast? = some r → r.cost = solution.cost

section Solve

variable {config : Config α} {problem : Problem α n} {x : Vector α n}

theorem counted_of_stationary {it : Iterate α m n}
    (hcourse : minimize config problem x = .stationary m it)
    (trace : Option (List (Record α))) :
    (Course.stationary m it).Counted config problem x
      (Course.solutionAt it 0 (Course.stationary m it).calls.length .localMinimum trace) where
  evaluations_eq := rfl
  length_calls := rfl
  wantsJacobian _ := Course.wantsJacobian_of_mem_calls
  call_zero := by
    obtain ⟨rfl, _⟩ := answers_of_stationary hcourse
    rfl
  tried _ hk := absurd hk (Nat.not_lt_zero _)
  iterations_le := Nat.zero_le _
  iterations_eq_cap := nofun

theorem counted_of_stopped {start : State α m n} {trail : Trail α m n} {reason : StopReason}
    (hcourse : minimize config problem x = .iterated m start trail)
    (hending : trail.ending = .stopped reason) (trace : Option (List (Record α))) :
    (Course.iterated m start trail).Counted config problem x
      (Course.solutionAt (trail.last start).current trail.attempts.length
        (Course.iterated m start trail).calls.length reason trace) := by
  obtain ⟨box, e, jacobian, hlaunch, hrun⟩ := exists_launch hcourse
  have hlength := Course.length_calls_of_stopped start hending
  exact {
    evaluations_eq := hlength
    length_calls := hlength
    wantsJacobian _ := Course.wantsJacobian_of_mem_calls
    call_zero := by rw [Course.calls_zero, hlaunch.point_eq]
    tried := by
      intro k hk
      have ha := List.getElem?_eq_getElem hk
      obtain ⟨s, hs⟩ := trail.exists_state start ha
      obtain ⟨j, step, e', htried⟩ := exists_tried hlaunch.validate_eq hcourse hs ha
      refine ⟨m, start.current, s.current, box, start.damping, j, step, e', hlaunch.validate_eq,
        ⟨Course.calls_zero start trail, e, jacobian, hlaunch.answers⟩, ?_, htried⟩
      rw [hlaunch.answers.gram_eq]
      exact hlaunch.damping_eq
    iterations_le := hrun.length_le
    iterations_eq_cap := by
      rintro rfl
      exact (hrun.length_eq_of_iterationCap hending).1 }

/-- What a solve counts while it is at work is what its course shows afterwards. -/
theorem narrate_counts [NumberText α] {recordTrace : Bool} {solution : Solution α n}
    (houtcome : (minimize config problem x).outcome recordTrace = .ok solution)
    (hcounted : (minimize config problem x).Counted config problem x solution) :
    (narrate { config with recordTrace } problem x).Counts (minimize config problem x)
      solution := by
  have hshows := narrate_shows { config with recordTrace } problem x
  have hcalls : (narrate { config with recordTrace } problem x).calls =
      (minimize config problem x).calls :=
    hshows.calls_eq
  refine ⟨hshows.outcome_eq.trans houtcome, hcalls, ?_, ?_⟩
  · rw [hcalls, hcounted.length_calls, hcounted.evaluations_eq]
  · rw [hcalls]
    exact hcounted.wantsJacobian

end Solve

/-- A solve that stops evaluates its start and then one point in each iteration, the point that the
answers so far lead to. It makes no more iterations than allowed, and all of them if it stops at the
cap. If a trace is wanted, it has a record for each iteration, and the last one shows the cost of
the solution. The count of evaluations that a solve keeps while it is at work comes to the number of
calls it makes, each of which asks for the Jacobian. -/
theorem minimize_counts (config : Config α) (problem : Problem α n) (x : Vector α n)
    (recordTrace : Bool) (solution : Solution α n)
    (houtcome : (minimize config problem x).outcome recordTrace = .ok solution) :
    (minimize config problem x).Counted config problem x solution ∧
    (recordTrace = true → ∃ records, solution.trace = some records ∧
      solution.Traced problem (minimize config problem x) records) ∧
    ∀ [NumberText α],
      (narrate { config with recordTrace } problem x).Counts (minimize config problem x)
        solution := by
  have hcounted : (minimize config problem x).Counted config problem x solution := by
    rcases Course.solution_cases houtcome with
      ⟨m, it, hcourse, rfl⟩ | ⟨m, start, trail, reason, hcourse, hending, rfl⟩
    · rw [hcourse]
      exact counted_of_stationary hcourse _
    · rw [hcourse]
      exact counted_of_stopped hcourse hending _
  refine ⟨hcounted, ?_, narrate_counts houtcome hcounted⟩
  rintro rfl
  rcases Course.solution_cases houtcome with
    ⟨m, it, hcourse, rfl⟩ | ⟨m, start, trail, reason, hcourse, hending, rfl⟩
  · exact ⟨[], rfl, rfl, nofun, nofun⟩
  · rw [hcourse]
    refine ⟨trail.records, rfl, trail.length_records, ?_, ?_⟩
    · intro k r hr
      exact tells_of_records hcourse hr
    · intro r hr
      exact Trail.cost_of_last_record start hr

/-- A solve whose first attempt is rejected and whose second is accepted, at the cap. -/
theorem minimize_counts_both_decisions :
    let config : Config Float := { Config.standard with maxIterations := 2 }
    let problem : Problem Float 1 := fun k _ _ =>
      .ok ⟨#[if k = 0 then 1.0 else if k = 1 then 2.0 else 0.5], some (.ofMat (.ofFn ![![1.0]]))⟩
    let course := minimize config problem #v[3.0]
    course.decisions = [false, true] ∧ course.calls.length = 3 ∧
      ∃ solution records, course.outcome true = .ok solution ∧
        solution.trace = some records ∧ solution.Traced problem course records ∧
        solution.evaluations = 3 ∧
        (narrate { config with recordTrace := true } problem #v[3.0]).Counts course solution := by
  intro config problem course
  have hdecisions : course.decisions = [false, true] := by decide +kernel +revert
  have hiterations : (course.outcome true).toOption.map Solution.iterations = some 2 := by
    decide +kernel +revert
  cases houtcome : course.outcome true with
  | error fault =>
      rw [houtcome] at hiterations
      cases hiterations
  | ok solution =>
      rw [houtcome] at hiterations
      obtain ⟨hcounted, htraced, hsession⟩ :=
        minimize_counts config problem #v[3.0] true solution houtcome
      obtain ⟨records, htrace, hrecords⟩ := htraced rfl
      have hlength := hcounted.length_calls
      have hevaluations := hcounted.evaluations_eq
      rw [Option.some.inj hiterations] at hlength hevaluations
      exact ⟨hdecisions, hlength, solution, records, rfl, htrace, hrecords, hevaluations, hsession⟩

end LeastSquares
