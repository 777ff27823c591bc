import Mathlib
import LeastSquares.Proofs.LinearDescent

/-! # Stop reasons

After every attempt there are three tests: the denominator is negligible, an accepted step lowered
the cost too little, an accepted step moved every parameter too little. A solve stops with the first
attempt that passes one, and names it. The point and the cost before the last accepted step are
compared with the current ones only after an attempt that was accepted itself, so what they are
after a rejection does not matter.
-/

namespace LeastSquares

variable {α : Type} [ExactScalar α] {m n : Nat}

namespace Tolerances

theorem share_eq (parameters objective : α) (hn : n ≠ 0) :
    share parameters objective n = ⟨parameters / n, objective / n⟩ := by
  rw [share, max_eq_left (Nat.one_le_iff_ne_zero.mpr hn)]

/-- Where there are parameters, the largest change is less than a tolerance if all changes are. -/
theorem largestChange_lt_iff (hn : n ≠ 0) (old new : Vector α n) (tolerance : α) :
    largestChange old.toList new.toList < tolerance ↔
      ∀ i, |old.get i - new.get i| < tolerance := by
  rw [largestChange, ← Vector.toList_zipWith, Scalar.foldl_larger_lt_iff, Scalar.zero_eq]
  constructor
  · rintro ⟨_, hall⟩ i
    apply hall
    rw [Vector.mem_toList_iff, Vector.mem_iff_getElem]
    exact ⟨i, i.isLt, Vector.getElem_zipWith i.isLt⟩
  · intro hmoves
    refine ⟨(abs_nonneg _).trans_lt (hmoves ⟨0, Nat.pos_of_ne_zero hn⟩), ?_⟩
    intro c hc
    obtain ⟨i, hi, rfl⟩ := Vector.mem_iff_getElem.mp (Vector.mem_toList_iff.mp hc)
    rw [Vector.getElem_zipWith]
    exact hmoves ⟨i, hi⟩

end Tolerances

/-- The tests that an attempt from `s` can pass, each a reason to stop. -/
inductive Attempt.Settles (t : Tolerances α) (s : State α m n) (a : Attempt α m n) :
    StopReason → Prop
  | localMinimum (hdenominator : a.denominator < Scalar.epsilon) : Settles t s a .localMinimum
  | objective (haccepted : a.accepted = true)
      (hdecrease : s.current.cost - a.next.current.cost < t.objective) :
      Settles t s a .objectiveSettled
  | parameters (haccepted : a.accepted = true)
      (hmoves : ∀ i, |s.current.point.get i - a.next.current.point.get i| < t.parameters) :
      Settles t s a .parametersSettled

namespace Attempt.Made

variable {c : Setting α n} {i : Nat} {s : State α m n} {step : Step α n} {e : Evaluation α}
  {a : Attempt α m n}

/-- The verdict names the first test that is passed, if any is. -/
theorem verdict_cases (ha : a.Made c i s step e) (hn : n ≠ 0) (t : Tolerances α) :
    (∃ reason, a.verdict t = .stopped reason ∧ a.Settles t s reason ∧
        (reason = .parametersSettled →
          t.objective ≤ s.current.cost - a.next.current.cost)) ∨
      (a.verdict t = .running ∧ ∀ reason, ¬a.Settles t s reason) := by
  unfold verdict Tolerances.verdict
  by_cases hdenominator : a.denominator < Scalar.epsilon
  · rw [if_pos hdenominator]
    exact Or.inl ⟨_, rfl, .localMinimum hdenominator, nofun⟩
  rw [if_neg hdenominator]
  cases haccepted : a.accepted with
  | false =>
      rw [if_neg (of_decide_eq_false haccepted)]
      refine Or.inr ⟨rfl, ?_⟩
      rintro _ (hlow | ⟨htrue, _⟩ | ⟨htrue, _⟩)
      · exact hdenominator hlow
      · rw [haccepted] at htrue
        cases htrue
      · rw [haccepted] at htrue
        cases htrue
  | true =>
      rw [if_pos (of_decide_eq_true haccepted), ha.previous_of_accepted haccepted]
      by_cases hdecrease : s.current.cost - a.next.current.cost < t.objective
      · rw [if_pos hdecrease]
        exact Or.inl ⟨_, rfl, .objective haccepted hdecrease, nofun⟩
      rw [if_neg hdecrease]
      have hchange := Tolerances.largestChange_lt_iff hn s.current.point a.next.current.point
        t.parameters
      by_cases hmoves : ∀ i, |s.current.point.get i - a.next.current.point.get i| < t.parameters
      · rw [if_pos (hchange.mpr hmoves)]
        exact Or.inl ⟨_, rfl, .parameters haccepted hmoves, fun _ => not_lt.mp hdecrease⟩
      · rw [if_neg (mt hchange.mp hmoves)]
        refine Or.inr ⟨rfl, ?_⟩
        rintro _ (hlow | ⟨_, hlow⟩ | ⟨_, hlow⟩)
        · exact hdenominator hlow
        · exact hdecrease hlow
        · exact hmoves hlow

end Attempt.Made

/-- What a run that stopped for a reason shows of it: no attempt before the last passed any test,
and neither did the last one if it was the cap that stopped the run. -/
structure Trail.StopsFor (trail : Trail α m n) (t : Tolerances α) (cap : Nat) (start : State α m n)
    (reason : StopReason) : Prop where
  length_eq_cap : reason = .iterationCap → trail.attempts.length = cap
  last_settles : reason ≠ .iterationCap → ∃ k s a, k + 1 = trail.attempts.length ∧
    (trail.states start)[k]? = some s ∧ trail.attempts[k]? = some a ∧ a.Settles t s reason ∧
    (reason = .parametersSettled → t.objective ≤ s.current.cost - a.next.current.cost)
  none_settles : ∀ k s a, (trail.states start)[k]? = some s → trail.attempts[k]? = some a →
    k + 1 < trail.attempts.length ∨ reason = .iterationCap → ∀ other, ¬a.Settles t s other

namespace Setting.Runs

variable {c : Setting α n} {remaining i : Nat} {start : State α m n} {trail : Trail α m n}

/-- An attempt after which the run goes on passes no test. -/
theorem not_settles_of_running (hrun : c.Runs remaining i start trail) (hn : n ≠ 0) {k : Nat}
    {s : State α m n} {a : Attempt α m n} (hs : (trail.states start)[k]? = some s)
    (ha : trail.attempts[k]? = some a) (hrunning : a.verdict c.tolerances = .running)
    (reason : StopReason) : ¬a.Settles c.tolerances s reason := by
  obtain ⟨step, e, hmade⟩ := made_of_attempt (hrun.attempt_eq hs ha)
  rcases hmade.verdict_cases hn c.tolerances with ⟨_, hstopped, _⟩ | ⟨_, hnone⟩
  · rw [hrunning] at hstopped
    cases hstopped
  · exact hnone reason

theorem stopsFor (hrun : c.Runs remaining i start trail) (hn : n ≠ 0) {reason : StopReason}
    (hending : trail.ending = .stopped reason) :
    trail.StopsFor c.tolerances remaining start reason where
  length_eq_cap := by
    rintro rfl
    exact (hrun.length_eq_of_iterationCap hending).1
  last_settles := by
    intro hreason
    rcases hrun.stopped_cases hending with ⟨hcap, _⟩ | ⟨k, a, hlength, ha, hverdict⟩
    · exact absurd hcap hreason
    · obtain ⟨s, hs⟩ := trail.exists_state start ha
      obtain ⟨step, e, hmade⟩ := made_of_attempt (hrun.attempt_eq hs ha)
      refine ⟨k, s, a, hlength, hs, ha, ?_⟩
      rcases hmade.verdict_cases hn c.tolerances with ⟨_, hstopped, hsettles⟩ | ⟨hrunning, _⟩
      · rw [hverdict] at hstopped
        cases hstopped
        exact hsettles
      · rw [hrunning] at hverdict
        cases hverdict
  none_settles := by
    intro k s a hs ha hearlier
    refine hrun.not_settles_of_running hn hs ha ?_
    rcases hearlier with hk | rfl
    · exact hrun.verdict_eq_running ha hk
    · exact (hrun.length_eq_of_iterationCap hending).2 a (List.mem_of_getElem? ha)

end Setting.Runs

/-- A solve stops for a true reason, and as soon as there is one. It stops without an attempt only
if the greatest diagonal entry at the start leaves too little damping, and at the cap only if all
iterations were made. In all other cases the last attempt passed the test that the solve is said to
have stopped for. No attempt before that passed any test, and none at all did if the cap was
reached. -/
theorem minimize_stop_reason (config : Config α) (problem : Problem α n) (x : Vector α n)
    (recordTrace : Bool) (solution : Solution α n)
    (houtcome : (minimize config problem x).outcome recordTrace = .ok solution) :
    Status.stopped solution.reason ≠ .running ∧
    ((solution.iterations = 0 ∧ solution.reason = .localMinimum ∧
      ∃ (e : Evaluation α) (jacobian : Mat α e.residuals.size n) (greatest : α),
        problem 0 x true = .ok e ∧ e.jacobianOf e.residuals.size n = .ok jacobian ∧
        IsGreatest (Set.range jacobian.gram.diagonal.get) greatest ∧
        config.tau * greatest < Scalar.epsilon) ∨
    ∃ (m : Nat) (start : State α m n) (trail : Trail α m n),
      minimize config problem x = .iterated m start trail ∧
      solution.iterations = trail.attempts.length ∧
      trail.StopsFor ⟨config.parameterTolerance / n, config.objectiveTolerance / n⟩
        config.maxIterations start solution.reason) := by
  refine ⟨nofun, ?_⟩
  rcases Course.solution_cases houtcome with
    ⟨m, it, hcourse, rfl⟩ | ⟨m, start, trail, reason, hcourse, hending, rfl⟩
  · obtain ⟨box, e, jacobian, hrest⟩ := exists_rest hcourse
    have hn : n ≠ 0 := ((config.validate_eq_ok_iff n box).mp hrest.validate_eq).1
    obtain ⟨greatest, hgreatest, hsmall⟩ :=
      Damping.exists_greatest_of_start?_eq_none hn hrest.damping_eq
    obtain rfl := hrest.answers.size_eq
    refine Or.inl ⟨rfl, rfl, e, jacobian, greatest, ?_, hrest.answers.jacobian_eq, hgreatest,
      hsmall⟩
    rw [← hrest.point_eq]
    exact hrest.answers.answer_eq
  · obtain ⟨box, _, _, hlaunch, hrun⟩ := exists_launch hcourse
    have hn : n ≠ 0 := ((config.validate_eq_ok_iff n box).mp hlaunch.validate_eq).1
    refine Or.inr ⟨m, start, trail, hcourse, rfl, ?_⟩
    rw [← Tolerances.share_eq _ _ hn]
    exact hrun.stopsFor hn hending

/-- A solve that starts at the minimum makes one attempt to find that there is nothing to gain. -/
theorem minimize_stop_reason_at_minimum :
    ∃ (solution : Solution ℝ 1) (start : State ℝ 1 1) (trail : Trail ℝ 1 1),
      (minimize .standard (.linear (.ofFn ![![1]]) #v[0]) #v[0]).outcome false = .ok solution ∧
      solution.iterations = 1 ∧ solution.reason = .localMinimum ∧
      minimize .standard (.linear (.ofFn ![![1]]) #v[0]) #v[0] = .iterated 1 start trail ∧
      ∃ a, trail.attempts[0]? = some a ∧ a.denominator < Scalar.epsilon := by
  let a : Mat ℝ 1 1 := .ofFn ![![1]]
  have hlarge : Scalar.epsilon ≤ (Config.standard : Config ℝ).tau * a.gram.entry 0 0 := by
    rw [Scalar.epsilon_eq]
    norm_num [a, Mat.entry_gram_self, Config.standard]
  obtain ⟨start, trail, hcourse⟩ := exists_linear_eq_iterated a #v[0] #v[0]
    (Config.validate_standard .identity one_ne_zero) 0 hlarge
  have hstationary : a.Stationary #v[0] #v[0] := by
    rw [a.stationary_iff, Mat.get_transposeMulVec, get_minus_eq_sub, Mat.get_mulVec]
    ext i
    simp [Matrix.mulVec, dotProduct, Vector.get]
  obtain ⟨hlength, hending⟩ := ending_of_stationary_start (by decide)
    (fun hdiagonal => by cases hdiagonal) hcourse hstationary
  have houtcome := (congrArg (Course.outcome false) hcourse).trans
    (Course.outcome_of_stopped hending false)
  refine ⟨_, start, trail, houtcome, hlength, rfl, hcourse, ?_⟩
  obtain ⟨_, ⟨hzero, _⟩ | ⟨m, start', trail', hcourse', _, hstops⟩⟩ :=
    minimize_stop_reason _ _ _ false _ houtcome
  · exact absurd (hlength.symm.trans hzero) one_ne_zero
  · cases hcourse.symm.trans hcourse'
    have hcap : StopReason.localMinimum ≠ .iterationCap := by decide
    obtain ⟨k, s, t, hk, _, ht, hsettles, _⟩ := hstops.last_settles hcap
    obtain rfl : k = 0 := by omega
    cases hsettles with
    | localMinimum hdenominator => exact ⟨t, ht, hdenominator⟩

end LeastSquares
