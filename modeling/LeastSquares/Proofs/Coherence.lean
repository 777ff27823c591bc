import Mathlib
import LeastSquares.Proofs.Run

/-! # Coherence of the state

At any time during a solve, what is kept of the current point was answered by one and the same call,
the last accepted one, and what is kept from before by the call accepted before that. Rejected
attempts leave no trace in either. The problem may answer differently at each call, and the
arithmetic is arbitrary.
-/

namespace LeastSquares

variable {α : Type} {m n : Nat}

/-- Of the first `k` decisions, that on call `j` is the last acceptance. The start is call zero and
needs no decision. -/
structure LastAccepted (decisions : List Bool) (k j : Nat) : Prop where
  le : j ≤ k
  accepted : ∀ i, j = i + 1 → decisions[i]? = some true
  rejected : ∀ i, j ≤ i → i < k → decisions[i]? = some false

/-- Call `i` is the one accepted just before call `j`. The start has only itself before it. -/
def AcceptedBefore (decisions : List Bool) (j i : Nat) : Prop :=
  (j = 0 ∧ i = 0) ∨ ∃ k, j = k + 1 ∧ LastAccepted decisions k i

namespace LastAccepted

variable {decisions : List Bool} {k j : Nat}

theorem zero (decisions : List Bool) : LastAccepted decisions 0 0 := by
  refine ⟨Nat.le_refl 0, ?_, ?_⟩
  · intro i hi
    cases hi
  · intro i _ hi
    exact absurd hi (Nat.not_lt_zero i)

theorem of_accepted (hk : decisions[k]? = some true) : LastAccepted decisions (k + 1) (k + 1) := by
  refine ⟨Nat.le_refl _, ?_, ?_⟩
  · intro i hi
    cases hi
    exact hk
  · intro i hle hlt
    omega

theorem of_rejected (hlast : LastAccepted decisions k j) (hk : decisions[k]? = some false) :
    LastAccepted decisions (k + 1) j := by
  refine ⟨Nat.le_succ_of_le hlast.le, hlast.accepted, ?_⟩
  intro i hle hlt
  by_cases heq : i = k
  · rw [heq]
    exact hk
  · exact hlast.rejected i hle (by omega)

/-- There is only one last acceptance. -/
theorem unique {j' : Nat} (hlast : LastAccepted decisions k j)
    (hlast' : LastAccepted decisions k j') : j = j' := by
  by_contra hne
  -- The later of two would be an acceptance after the earlier one.
  wlog hlt : j < j' generalizing j j' with hsymm
  · exact hsymm hlast' hlast (Ne.symm hne) (by omega)
  obtain ⟨i, rfl⟩ : ∃ i, j' = i + 1 := ⟨j' - 1, by omega⟩
  have haccepted := hlast'.accepted i rfl
  have hle := hlast'.le
  rw [hlast.rejected i (by omega) (by omega)] at haccepted
  cases haccepted

end LastAccepted

namespace Course

variable [Scalar α]

/-- Which attempts were accepted, in order. -/
def decisions : Course α n → List Bool
  | .iterated _ _ trail => trail.attempts.map Attempt.accepted
  | _ => []

theorem decisions_getElem? (start : State α m n) {trail : Trail α m n} {k : Nat}
    {a : Attempt α m n} (ha : trail.attempts[k]? = some a) :
    (iterated m start trail).decisions[k]? = some a.accepted := by
  rw [decisions, List.getElem?_map, ha]
  rfl

omit [Scalar α] in
theorem calls_zero (start : State α m n) (trail : Trail α m n) :
    (iterated m start trail).calls[0]? = some ⟨true, start.current.point⟩ :=
  rfl

omit [Scalar α] in
/-- Call `k + 1` is made at point `k` of the trail. -/
theorem calls_succ_eq (start : State α m n) (trail : Trail α m n) (k : Nat) :
    (iterated m start trail).calls[k + 1]? = trail.trials[k]?.map (Call.mk true) := by
  rw [calls, List.map_cons, List.getElem?_cons_succ, List.getElem?_map]

omit [Scalar α] in
/-- Attempt `k + 1` is made with call `k + 1`. -/
theorem calls_succ {start : State α m n} {trail : Trail α m n} {k : Nat} {a : Attempt α m n}
    (ha : trail.attempts[k]? = some a) :
    (iterated m start trail).calls[k + 1]? = some ⟨true, a.trial⟩ := by
  rw [calls_succ_eq, Trail.trials_of_attempt ha]
  rfl

omit [Scalar α] in
/-- Every call of a solve that stopped is the first or that of an attempt. -/
theorem length_calls_of_stopped (start : State α m n) {trail : Trail α m n} {reason : StopReason}
    (hending : trail.ending = .stopped reason) :
    (iterated m start trail).calls.length = trail.attempts.length + 1 := by
  simp [calls, Trail.trials, hending]

end Course

variable [Scalar α]

/-- An iterate is what call `j` was asked and answered. -/
structure Iterate.Recalls (problem : Problem α n) (calls : List (Call α n)) (j : Nat)
    (it : Iterate α m n) : Prop where
  call : calls[j]? = some ⟨true, it.point⟩
  answers : ∃ e jacobian, it.Answers problem j e jacobian

/-- After `k` attempts, the current iterate recalls the last accepted call and the previous one the
call accepted before that. -/
structure State.Coherent (problem : Problem α n) (course : Course α n) (k j i : Nat)
    (s : State α m n) : Prop where
  last : LastAccepted course.decisions k j
  before : AcceptedBefore course.decisions j i
  current : s.current.Recalls problem course.calls j
  previous : s.previous.Recalls problem course.calls i

namespace State.Coherent

variable {problem : Problem α n} {start s : State α m n} {trail : Trail α m n}
  {a : Attempt α m n} {j i k : Nat}

/-- One attempt keeps a state coherent: an accepted one moves on by one call, and a rejected one
changes nothing. -/
theorem attempt {c : Setting α n}
    (hs : s.Coherent c.problem (.iterated m start trail) k j i)
    (ha : trail.attempts[k]? = some a) (hattempt : c.attempt (k + 1) s = .ok a) :
    ∃ j' i', a.next.Coherent c.problem (.iterated m start trail) (k + 1) j' i' := by
  obtain ⟨step, e, hmade⟩ := Setting.made_of_attempt hattempt
  have hdecision := Course.decisions_getElem? start ha
  rcases hmade.decision with ⟨haccepted, jacobian, hjacobian, hnext⟩ | ⟨hrejected, hnext⟩
  · -- What was current becomes previous, and call `k + 1` becomes current.
    rw [haccepted] at hdecision
    have hanswers := Iterate.answers_of hmade.answer_eq hmade.size_eq hjacobian
    refine ⟨k + 1, j, .of_accepted hdecision, Or.inr ⟨k, rfl, hs.last⟩, ?_, ?_⟩
    · rw [hnext]
      exact ⟨Course.calls_succ ha, e, jacobian, hanswers⟩
    · rw [hnext]
      exact hs.current
  · rw [hrejected] at hdecision
    refine ⟨j, i, hs.last.of_rejected hdecision, hs.before, ?_, ?_⟩
    · rw [hnext]
      exact hs.current
    · rw [hnext]
      exact hs.previous

end State.Coherent

/-- Every state of a solve is coherent. -/
theorem exists_coherent {config : Config α} {problem : Problem α n} {x : Vector α n}
    {start : State α m n} {trail : Trail α m n}
    (hcourse : minimize config problem x = .iterated m start trail) {k : Nat} {s : State α m n}
    (hs : (trail.states start)[k]? = some s) :
    ∃ j i, s.Coherent problem (.iterated m start trail) k j i := by
  obtain ⟨box, e, jacobian, hlaunch, hrun⟩ := exists_launch hcourse
  have hstart : start.current.Recalls problem (Course.iterated m start trail).calls 0 :=
    ⟨Course.calls_zero start trail, e, jacobian, hlaunch.answers⟩
  refine hrun.invariant
    (P := fun k s => ∃ j i, s.Coherent problem (.iterated m start trail) k j i) ?_ ?_ hs
  · refine ⟨0, 0, .zero _, Or.inl ⟨rfl, rfl⟩, hstart, ?_⟩
    rw [hlaunch.previous_eq]
    exact hstart
  · rintro k s a _ ha hattempt ⟨j, i, hcoherent⟩
    exact hcoherent.attempt (c := config.setting problem box) ha hattempt

theorem Attempt.unchanged_of_rejected {c : Setting α n} {i : Nat} {s : State α m n}
    {a : Attempt α m n} (hattempt : c.attempt i s = .ok a) (hrejected : a.accepted = false) :
    a.next.current = s.current ∧ a.next.previous = s.previous := by
  obtain ⟨step, e, hmade⟩ := Setting.made_of_attempt hattempt
  rw [hmade.next_of_rejected hrejected]
  exact ⟨rfl, rfl⟩

/-- What a solution shows of the iterate it is made from. -/
theorem Iterate.Recalls.exists_answer {problem : Problem α n} {calls : List (Call α n)} {j : Nat}
    {it : Iterate α m n} (hit : it.Recalls problem calls j) (iterations evaluations : Nat)
    (reason : StopReason) (trace : Option (List (Record α))) :
    let solution : Solution α n := Course.solutionAt it iterations evaluations reason trace
    ∃ e, calls[j]? = some ⟨true, solution.point⟩ ∧ problem j solution.point true = .ok e ∧
      solution.residuals = e.residuals.toList ∧ solution.cost = e.cost := by
  obtain ⟨e, jacobian, hanswers⟩ := hit.answers
  refine ⟨e, hit.call, hanswers.answer_eq, ?_, hanswers.cost_eq_cost⟩
  exact congrArg Array.toList hanswers.residuals_eq

/-- A solve never mixes two evaluations. The state after any number of attempts recalls the last
accepted call and the one accepted before it, a rejected attempt changes neither, and the solution
shows the point, residuals and cost of the last accepted call. -/
theorem minimize_coherent (config : Config α) (problem : Problem α n) (x : Vector α n) :
    (∀ (m : Nat) (start : State α m n) (trail : Trail α m n),
      minimize config problem x = .iterated m start trail →
      start.current.point = x ∧
      (∀ (k : Nat) (s : State α m n), (trail.states start)[k]? = some s →
        ∃ j i, s.Coherent problem (minimize config problem x) k j i) ∧
      ∀ (k : Nat) (s : State α m n) (a : Attempt α m n), (trail.states start)[k]? = some s →
        trail.attempts[k]? = some a → a.accepted = false →
        a.next.current = s.current ∧ a.next.previous = s.previous) ∧
    ∀ recordTrace solution, (minimize config problem x).outcome recordTrace = .ok solution →
      (minimize config problem x).calls[0]? = some ⟨true, x⟩ ∧
      ∃ j e, LastAccepted (minimize config problem x).decisions solution.iterations j ∧
        (minimize config problem x).calls[j]? = some ⟨true, solution.point⟩ ∧
        problem j solution.point true = .ok e ∧ solution.residuals = e.residuals.toList ∧
        solution.cost = e.cost := by
  constructor
  · intro m start trail hcourse
    obtain ⟨box, e, jacobian, hlaunch, hrun⟩ := exists_launch hcourse
    refine ⟨hlaunch.point_eq, ?_, ?_⟩
    · intro k s hs
      rw [hcourse]
      exact exists_coherent hcourse hs
    · intro k s a hs ha hrejected
      exact Attempt.unchanged_of_rejected (hrun.attempt_eq hs ha) hrejected
  · intro recordTrace solution houtcome
    rcases Course.solution_cases houtcome with
      ⟨m, it, hcourse, rfl⟩ | ⟨m, start, trail, reason, hcourse, _, rfl⟩
    · obtain ⟨rfl, e, jacobian, hanswers⟩ := answers_of_stationary hcourse
      rw [hcourse]
      have hrecalls : it.Recalls problem (Course.stationary m it).calls 0 :=
        ⟨rfl, e, jacobian, hanswers⟩
      obtain ⟨e, hanswer⟩ := hrecalls.exists_answer 0 1 .localMinimum _
      exact ⟨rfl, 0, e, .zero _, hanswer⟩
    · obtain ⟨box, e, jacobian, hlaunch, _⟩ := exists_launch hcourse
      obtain ⟨j, i, hcoherent⟩ := exists_coherent hcourse (trail.last_eq start)
      obtain ⟨e, hanswer⟩ := hcoherent.current.exists_answer trail.attempts.length _ reason _
      rw [hcourse]
      refine ⟨?_, j, e, hcoherent.last, hanswer⟩
      rw [Course.calls_zero, hlaunch.point_eq]

end LeastSquares
