import Mathlib
import LeastSquares.Solution

/-! # Attempts and runs

What one attempt can do is said once: the step it took, the answer it got, and the state that the
decision led to. A run is the list of its attempts with the states between them, so what holds at
the start and is kept by every attempt holds of every state. Nothing here depends on the arithmetic.
-/

namespace LeastSquares

variable {α : Type} {m n : Nat}

namespace Trail

/-- The state that the trail starts in, and the one after each attempt. -/
def states (start : State α m n) (t : Trail α m n) : List (State α m n) :=
  start :: t.attempts.map Attempt.next

@[simp] theorem states_zero (start : State α m n) (t : Trail α m n) :
    (t.states start)[0]? = some start :=
  rfl

@[simp] theorem length_states (start : State α m n) (t : Trail α m n) :
    (t.states start).length = t.attempts.length + 1 := by
  simp [states]

theorem exists_attempt_of_states_succ {start s : State α m n} {t : Trail α m n} {k : Nat}
    (hs : (t.states start)[k + 1]? = some s) : ∃ a, t.attempts[k]? = some a ∧ a.next = s := by
  rw [states, List.getElem?_cons_succ, List.getElem?_map] at hs
  exact Option.map_eq_some_iff.mp hs

theorem states_succ {start : State α m n} {t : Trail α m n} {k : Nat} {a : Attempt α m n}
    (ha : t.attempts[k]? = some a) : (t.states start)[k + 1]? = some a.next := by
  rw [states, List.getElem?_cons_succ, List.getElem?_map, ha]
  rfl

/-- There is a state before every attempt. -/
theorem exists_state (t : Trail α m n) (start : State α m n) {k : Nat} {a : Attempt α m n}
    (ha : t.attempts[k]? = some a) : ∃ s, (t.states start)[k]? = some s := by
  have hk : k < (t.states start).length := by
    have hlength := (List.getElem?_eq_some_iff.mp ha).1
    rw [length_states]
    omega
  exact ⟨_, List.getElem?_eq_getElem hk⟩

theorem trials_of_attempt {t : Trail α m n} {k : Nat} {a : Attempt α m n}
    (ha : t.attempts[k]? = some a) : t.trials[k]? = some a.trial := by
  have hk : k < t.attempts.length := (List.getElem?_eq_some_iff.mp ha).1
  rw [trials, List.getElem?_append_left (by simpa using hk), List.getElem?_map, ha]
  rfl

theorem last_eq (start : State α m n) (t : Trail α m n) :
    (t.states start)[t.attempts.length]? = some (t.last start) := by
  rw [last, List.getLast?_eq_getElem?]
  cases hlength : t.attempts.length with
  | zero =>
      rw [List.length_eq_zero_iff.mp hlength]
      rfl
  | succ k =>
      have ha := List.getElem?_eq_getElem (l := t.attempts) (i := k) (by omega)
      rw [states_succ ha, Nat.add_sub_cancel, ha]
      rfl

end Trail

variable [Scalar α]

/-- An iterate is what the answer `e` to call `k` says of the point of that call. -/
structure Iterate.Answers (problem : Problem α n) (k : Nat) (e : Evaluation α)
    (jacobian : Mat α m n) (it : Iterate α m n) : Prop where
  answer_eq : problem k it.point true = .ok e
  residuals_eq : it.residuals.toArray = e.residuals
  cost_eq : it.cost = dot it.residuals it.residuals
  jacobian_eq : e.jacobianOf m n = .ok jacobian
  gram_eq : it.gram = jacobian.gram
  gradient_eq : it.gradient = jacobian.transposeMulVec it.residuals

theorem Iterate.answers_of {problem : Problem α n} {k : Nat} {point : Vector α n}
    {e : Evaluation α} {jacobian : Mat α m n} (hanswer : problem k point true = .ok e)
    (hsize : e.residuals.size = m) (hjacobian : e.jacobianOf m n = .ok jacobian) :
    (Iterate.of point ⟨e.residuals, hsize⟩ jacobian).Answers problem k e jacobian :=
  ⟨hanswer, rfl, rfl, hjacobian, rfl, rfl⟩

/-- The cost of an evaluation is that of its residuals as a vector of any length they have. -/
theorem Evaluation.cost_eq_dot (e : Evaluation α) (hsize : e.residuals.size = m) :
    e.cost = dot (⟨e.residuals, hsize⟩ : Vector α m) ⟨e.residuals, hsize⟩ := by
  subst hsize
  rfl

namespace Iterate.Answers

variable {problem : Problem α n} {k : Nat} {e : Evaluation α} {jacobian : Mat α m n}
  {it : Iterate α m n}

theorem size_eq (hit : it.Answers problem k e jacobian) : e.residuals.size = m := by
  rw [← hit.residuals_eq]
  exact it.residuals.size_toArray

theorem cost_eq_cost (hit : it.Answers problem k e jacobian) : it.cost = e.cost := by
  have hresiduals : it.residuals = ⟨e.residuals, hit.size_eq⟩ :=
    Vector.toArray_inj.mp hit.residuals_eq
  rw [hit.cost_eq, e.cost_eq_dot hit.size_eq, hresiduals]

end Iterate.Answers

/-- What a choice of options makes of a problem whose bounds are known to fit. -/
def Config.setting (config : Config α) (problem : Problem α n) (box : Box α n) :
    Setting α n where
  problem
  style := config.damping
  box
  tolerances := .share config.parameterTolerance config.objectiveTolerance n

/-- An attempt of iteration `i` that took `step` from `s` and was answered `e` at its trial point.
Acceptance is decided by the residuals alone; the Jacobian matters only afterwards. -/
structure Attempt.Made (c : Setting α n) (i : Nat) (s : State α m n) (step : Step α n)
    (e : Evaluation α) (a : Attempt α m n) : Prop where
  step_eq : s.step? c.style = some step
  trial_eq : a.trial = c.box.clip (plus s.current.point step.move)
  answer_eq : c.problem i a.trial true = .ok e
  size_eq : e.residuals.size = m
  denominator_eq : a.denominator = step.denominator
  ratio_eq : a.ratio = Damping.gainRatio s.current.cost e.cost step.denominator
  decision :
    (a.accepted = true ∧ ∃ jacobian, e.jacobianOf m n = .ok jacobian ∧
      a.next = s.accept (.of a.trial ⟨e.residuals, size_eq⟩ jacobian) a.ratio) ∨
    (a.accepted = false ∧ a.next = s.reject)

namespace Attempt.Made

variable {c : Setting α n} {i : Nat} {s : State α m n} {step : Step α n} {e : Evaluation α}
  {a : Attempt α m n}

theorem next_of_accepted (ha : a.Made c i s step e) (haccepted : a.accepted = true) :
    ∃ jacobian, e.jacobianOf m n = .ok jacobian ∧
      a.next = s.accept (.of a.trial ⟨e.residuals, ha.size_eq⟩ jacobian) a.ratio := by
  rcases ha.decision with ⟨_, hnext⟩ | ⟨hrejected, _⟩
  · exact hnext
  · rw [haccepted] at hrejected
    cases hrejected

theorem next_of_rejected (ha : a.Made c i s step e) (hrejected : a.accepted = false) :
    a.next = s.reject := by
  rcases ha.decision with ⟨haccepted, _⟩ | ⟨_, hnext⟩
  · rw [hrejected] at haccepted
    cases haccepted
  · exact hnext

/-- After an accepted attempt, what it started from is what is remembered. -/
theorem previous_of_accepted (ha : a.Made c i s step e) (haccepted : a.accepted = true) :
    a.next.previous = s.current := by
  obtain ⟨_, _, hnext⟩ := ha.next_of_accepted haccepted
  rw [hnext]
  rfl

theorem cost_of_accepted (ha : a.Made c i s step e) (haccepted : a.accepted = true) :
    a.next.current.cost = e.cost := by
  obtain ⟨_, _, hnext⟩ := ha.next_of_accepted haccepted
  rw [hnext, e.cost_eq_dot ha.size_eq]
  rfl

end Attempt.Made

namespace Setting

/-- Every attempt that is carried through was made in this way. -/
theorem made_of_attempt {c : Setting α n} {i : Nat} {s : State α m n} {a : Attempt α m n}
    (ha : c.attempt i s = .ok a) : ∃ step e, a.Made c i s step e := by
  unfold attempt at ha
  split at ha
  · cases ha
  next step hstep =>
    dsimp only at ha
    split at ha
    · cases ha
    next e hanswer =>
      split at ha
      · cases ha
      next a' hjudge =>
        cases ha
        unfold judge at hjudge
        split at hjudge
        next hsize =>
          dsimp only at hjudge
          split at hjudge
          next hrho =>
            split at hjudge
            · cases hjudge
            next jacobian hjacobian =>
              cases hjudge
              exact ⟨step, e, hstep, rfl, hanswer, hsize, rfl, rfl,
                Or.inl ⟨decide_eq_true hrho, jacobian, hjacobian, rfl⟩⟩
          next hrho =>
            cases hjudge
            exact ⟨step, e, hstep, rfl, hanswer, hsize, rfl, rfl,
              Or.inr ⟨decide_eq_false hrho, rfl⟩⟩
        · cases hjudge

/-- A step to a point where the problem answers as it should is carried through. -/
theorem exists_attempt {c : Setting α n} {i : Nat} {s : State α m n} {step : Step α n}
    {e : Evaluation α} {jacobian : Mat α m n} (hstep : s.step? c.style = some step)
    (hanswer : c.problem i (c.box.clip (plus s.current.point step.move)) true = .ok e)
    (hsize : e.residuals.size = m) (hjacobian : e.jacobianOf m n = .ok jacobian) :
    ∃ a, c.attempt i s = .ok a := by
  unfold attempt judge
  rw [hstep]
  dsimp only
  rw [hanswer]
  dsimp only
  rw [dif_pos hsize, hjacobian]
  by_cases hrho : Scalar.zero < Damping.gainRatio s.current.cost e.cost step.denominator
  · rw [if_pos hrho]
    exact ⟨_, rfl⟩
  · rw [if_neg hrho]
    exact ⟨_, rfl⟩

/-- The factorization is all that can fail before the problem is asked. -/
theorem attempt_eq_singular_iff (c : Setting α n) (i : Nat) (s : State α m n) :
    c.attempt i s = .error .singular ↔ s.step? c.style = none := by
  unfold attempt
  cases hstep : s.step? c.style with
  | none => simp
  | some step =>
      dsimp only
      constructor
      · intro hsingular
        split at hsingular
        · cases hsingular
        · split at hsingular
          · cases hsingular
          · cases hsingular
      · intro hnone
        cases hnone

/-- An attempt that is not carried through is a failure, never a reason to stop. -/
theorem attempt_ne_stopped (c : Setting α n) (i : Nat) (s : State α m n) (reason : StopReason) :
    c.attempt i s ≠ .error (.stopped reason) := by
  unfold attempt
  intro hstopped
  split at hstopped
  · cases hstopped
  · dsimp only at hstopped
    split at hstopped
    · cases hstopped
    · split at hstopped
      · cases hstopped
      · cases hstopped

end Setting

/-- No attempt is a reason to stop at the cap. -/
theorem Attempt.verdict_ne_iterationCap (tolerances : Tolerances α) (a : Attempt α m n) :
    a.verdict tolerances ≠ .stopped .iterationCap := by
  unfold verdict Tolerances.verdict
  intro hverdict
  split at hverdict
  · cases hverdict
  · split at hverdict
    · split at hverdict
      · cases hverdict
      · split at hverdict
        · cases hverdict
        · cases hverdict
    · cases hverdict

/-- The trails that at most `remaining` attempts can leave, the first of them in iteration `i`. -/
inductive Setting.Runs (c : Setting α n) :
    (remaining i : Nat) → State α m n → Trail α m n → Prop
  | capped (i : Nat) (s : State α m n) : Runs c 0 i s ⟨[], .stopped .iterationCap⟩
  | failed {remaining i : Nat} {s : State α m n} {ending : Ending α n}
      (hfailed : c.attempt i s = .error ending) : Runs c (remaining + 1) i s ⟨[], ending⟩
  | stopped {remaining i : Nat} {s : State α m n} {a : Attempt α m n} {reason : StopReason}
      (ha : c.attempt i s = .ok a) (hverdict : a.verdict c.tolerances = .stopped reason) :
      Runs c (remaining + 1) i s ⟨[a], .stopped reason⟩
  | running {remaining i : Nat} {s : State α m n} {a : Attempt α m n} {rest : Trail α m n}
      (ha : c.attempt i s = .ok a) (hverdict : a.verdict c.tolerances = .running)
      (hrest : Runs c remaining (i + 1) a.next rest) :
      Runs c (remaining + 1) i s ⟨a :: rest.attempts, rest.ending⟩

theorem Setting.runs_iterate (c : Setting α n) (remaining i : Nat) (s : State α m n) :
    c.Runs remaining i s (c.iterate remaining i s) := by
  induction remaining generalizing i s with
  | zero => exact .capped i s
  | succ remaining ih =>
      unfold iterate
      split
      next ending hfailed => exact .failed hfailed
      next a ha =>
        split
        next reason hverdict => exact .stopped ha hverdict
        next hverdict => exact .running ha hverdict (ih (i + 1) a.next)

/-- The solve goes on to another iteration after `k` attempts: the cap leaves room for it, and none
of the attempts ended the solve. -/
def Trail.GoesOn (t : Trail α m n) (cap : Nat) (tolerances : Tolerances α) (k : Nat) : Prop :=
  k < cap ∧ ∀ j a, j < k → t.attempts[j]? = some a → a.verdict tolerances = .running

theorem Trail.goesOn_zero (t : Trail α m n) {cap : Nat} (hcap : 0 < cap)
    (tolerances : Tolerances α) : t.GoesOn cap tolerances 0 :=
  ⟨hcap, fun j _ hj => absurd hj (Nat.not_lt_zero j)⟩

namespace Setting.Runs

variable {c : Setting α n} {remaining i : Nat} {start : State α m n} {t : Trail α m n}

/-- Every attempt of a run was made in the state that the ones before it led to. -/
theorem attempt_eq (hrun : c.Runs remaining i start t) {k : Nat} {s : State α m n}
    {a : Attempt α m n} (hs : (t.states start)[k]? = some s) (ha : t.attempts[k]? = some a) :
    c.attempt (k + i) s = .ok a := by
  induction hrun generalizing k s with
  | capped => simp at ha
  | failed => simp at ha
  | stopped hfirst =>
      cases k with
      | zero =>
          cases hs
          cases ha
          rw [Nat.zero_add]
          exact hfirst
      | succ k => simp at ha
  | @running remaining i _ _ _ hfirst _ _ ih =>
      cases k with
      | zero =>
          cases hs
          cases ha
          rw [Nat.zero_add]
          exact hfirst
      | succ k =>
          have hnumber : k + 1 + i = k + (i + 1) := by omega
          rw [hnumber]
          exact ih hs ha

/-- What holds at the start and is kept by every attempt holds after any number of them. -/
theorem invariant (hrun : c.Runs remaining i start t) {P : Nat → State α m n → Prop}
    (hstart : P 0 start)
    (hstep : ∀ k s a, (t.states start)[k]? = some s → t.attempts[k]? = some a →
      c.attempt (k + i) s = .ok a → P k s → P (k + 1) a.next)
    {k : Nat} {s : State α m n} (hs : (t.states start)[k]? = some s) : P k s := by
  induction k generalizing s with
  | zero =>
      cases hs
      exact hstart
  | succ k ih =>
      obtain ⟨a, ha, rfl⟩ := Trail.exists_attempt_of_states_succ hs
      -- The states are one more than the attempts, so the state before attempt `k` is among them.
      have hlength : k < (t.states start).length := by
        have hk := (List.getElem?_eq_some_iff.mp hs).1
        omega
      have hbefore := List.getElem?_eq_getElem hlength
      exact hstep k _ a hbefore ha (hrun.attempt_eq hbefore ha) (ih hbefore)

theorem length_le (hrun : c.Runs remaining i start t) : t.attempts.length ≤ remaining := by
  induction hrun with
  | capped => simp
  | failed => simp
  | stopped => simp
  | running _ _ _ ih =>
      rw [List.length_cons]
      omega

/-- An attempt that another one follows did not end the solve. -/
theorem verdict_eq_running (hrun : c.Runs remaining i start t) {k : Nat} {a : Attempt α m n}
    (ha : t.attempts[k]? = some a) (hk : k + 1 < t.attempts.length) :
    a.verdict c.tolerances = .running := by
  induction hrun generalizing k with
  | capped => simp at ha
  | failed => simp at ha
  | stopped => simp at hk
  | running _ hverdict _ ih =>
      cases k with
      | zero =>
          cases ha
          exact hverdict
      | succ k => exact ih ha (by simpa using hk)

/-- A solve that ends with its last attempt ends for the reason that the attempt gave. -/
theorem ending_of_verdict (hrun : c.Runs remaining i start t) {k : Nat} {a : Attempt α m n}
    {reason : StopReason} (ha : t.attempts[k]? = some a)
    (hverdict : a.verdict c.tolerances = .stopped reason) :
    k + 1 = t.attempts.length ∧ t.ending = .stopped reason := by
  induction hrun generalizing k with
  | capped => simp at ha
  | failed => simp at ha
  | stopped _ hstopped =>
      cases k with
      | zero =>
          cases ha
          rw [hstopped] at hverdict
          cases hverdict
          exact ⟨rfl, rfl⟩
      | succ k => simp at ha
  | running _ hrunning _ ih =>
      cases k with
      | zero =>
          cases ha
          rw [hrunning] at hverdict
          cases hverdict
      | succ k =>
          obtain ⟨hlength, hending⟩ := ih ha
          exact ⟨by simpa using hlength, hending⟩

/-- Either the attempt that the solve goes on to is carried through, or it is how the solve ends. -/
theorem attempt_of_goesOn (hrun : c.Runs remaining i start t) {k : Nat} {s : State α m n}
    (hs : (t.states start)[k]? = some s) (hon : t.GoesOn remaining c.tolerances k) :
    (∃ a, t.attempts[k]? = some a ∧ c.attempt (k + i) s = .ok a) ∨
      (k = t.attempts.length ∧ c.attempt (k + i) s = .error t.ending) := by
  -- The induction follows the run: index zero is its first attempt, any other is one of the rest.
  induction hrun generalizing k s with
  | capped => exact absurd hon.1 (Nat.not_lt_zero k)
  | failed hfailed =>
      cases k with
      | zero =>
          cases hs
          rw [Nat.zero_add]
          exact Or.inr ⟨rfl, hfailed⟩
      | succ k => simp [Trail.states] at hs
  | stopped hfirst hstopped =>
      cases k with
      | zero =>
          cases hs
          rw [Nat.zero_add]
          exact Or.inl ⟨_, rfl, hfirst⟩
      | succ k =>
          have hrunning := hon.2 0 _ (Nat.succ_pos k) rfl
          rw [hstopped] at hrunning
          cases hrunning
  | @running remaining i _ first rest hfirst _ _ ih =>
      cases k with
      | zero =>
          cases hs
          rw [Nat.zero_add]
          exact Or.inl ⟨_, rfl, hfirst⟩
      | succ k =>
          have hnumber : k + 1 + i = k + (i + 1) := by omega
          have honRest : rest.GoesOn remaining c.tolerances k :=
            ⟨Nat.lt_of_succ_lt_succ hon.1, fun j a hj ha => hon.2 (j + 1) a (by omega) ha⟩
          rw [hnumber]
          rcases ih hs honRest with hok | ⟨hlength, hfailed⟩
          · exact Or.inl hok
          · exact Or.inr ⟨congrArg (· + 1) hlength, hfailed⟩

/-- With a step, and an answer that can be used, such an attempt is carried through. -/
theorem exists_attempt_of_goesOn (hrun : c.Runs remaining i start t) {k : Nat} {s : State α m n}
    {step : Step α n} {e : Evaluation α} {jacobian : Mat α m n}
    (hs : (t.states start)[k]? = some s) (hon : t.GoesOn remaining c.tolerances k)
    (hstep : s.step? c.style = some step)
    (hanswer : c.problem (k + i) (c.box.clip (plus s.current.point step.move)) true = .ok e)
    (hsize : e.residuals.size = m) (hjacobian : e.jacobianOf m n = .ok jacobian) :
    ∃ a, t.attempts[k]? = some a ∧ c.attempt (k + i) s = .ok a := by
  rcases hrun.attempt_of_goesOn hs hon with hmade | ⟨_, hfailed⟩
  · exact hmade
  · obtain ⟨a, ha⟩ := exists_attempt hstep hanswer hsize hjacobian
    cases hfailed.symm.trans ha

/-- A solve that did not stop failed in an attempt that it went on to. -/
theorem goesOn_of_not_stopped (hrun : c.Runs remaining i start t)
    (hending : ∀ reason, t.ending ≠ .stopped reason) :
    t.GoesOn remaining c.tolerances t.attempts.length := by
  induction hrun with
  | capped => exact absurd rfl (hending _)
  | failed => exact ⟨Nat.succ_pos _, fun j a hj => absurd hj (Nat.not_lt_zero j)⟩
  | stopped => exact absurd rfl (hending _)
  | running _ hverdict _ ih =>
      obtain ⟨hlength, hrunning⟩ := ih hending
      refine ⟨Nat.succ_lt_succ hlength, ?_⟩
      intro j a hj ha
      cases j with
      | zero =>
          cases ha
          exact hverdict
      | succ j => exact hrunning j a (Nat.lt_of_succ_lt_succ hj) ha

/-- A run that stopped used up all its attempts and none of them ended it, or its last one did. -/
theorem stopped_cases (hrun : c.Runs remaining i start t) {reason : StopReason}
    (hending : t.ending = .stopped reason) :
    (reason = .iterationCap ∧ t.attempts.length = remaining ∧
        ∀ a ∈ t.attempts, a.verdict c.tolerances = .running) ∨
      ∃ k a, k + 1 = t.attempts.length ∧ t.attempts[k]? = some a ∧
        a.verdict c.tolerances = .stopped reason := by
  induction hrun with
  | capped =>
      cases hending
      exact Or.inl ⟨rfl, rfl, List.forall_mem_nil _⟩
  | failed hfailed =>
      dsimp only at hending
      rw [hending] at hfailed
      exact absurd hfailed (c.attempt_ne_stopped _ _ reason)
  | stopped _ hverdict =>
      cases hending
      exact Or.inr ⟨0, _, rfl, rfl, hverdict⟩
  | running _ hverdict _ ih =>
      rcases ih hending with ⟨hreason, hlength, hrunning⟩ | ⟨k, a, hlength, ha, hstopped⟩
      · exact Or.inl ⟨hreason, congrArg (· + 1) hlength,
          List.forall_mem_cons.mpr ⟨hverdict, hrunning⟩⟩
      · exact Or.inr ⟨k + 1, a, congrArg (· + 1) hlength, ha, hstopped⟩

/-- A run stops at the cap only if it used up all its attempts and none of them ended it. -/
theorem length_eq_of_iterationCap (hrun : c.Runs remaining i start t)
    (hending : t.ending = .stopped .iterationCap) :
    t.attempts.length = remaining ∧ ∀ a ∈ t.attempts, a.verdict c.tolerances = .running := by
  rcases hrun.stopped_cases hending with ⟨_, hcapped⟩ | ⟨_, a, _, _, hverdict⟩
  · exact hcapped
  · exact absurd hverdict (a.verdict_ne_iterationCap _)

end Setting.Runs

/-- How a solve comes to its first state: the options fit, the start is answered with a Jacobian of
the right shape, and that does not vanish. -/
structure Launch (config : Config α) (problem : Problem α n) (x : Vector α n) (box : Box α n)
    (e : Evaluation α) (jacobian : Mat α m n) (start : State α m n) : Prop where
  validate_eq : config.validate n = .ok box
  answers : start.current.Answers problem 0 e jacobian
  point_eq : start.current.point = x
  previous_eq : start.previous = start.current
  damping_eq : Damping.start? config.tau jacobian.gram.diagonal.toList = some start.damping

theorem exists_launch {config : Config α} {problem : Problem α n} {x : Vector α n}
    {start : State α m n} {trail : Trail α m n}
    (hcourse : minimize config problem x = .iterated m start trail) :
    ∃ box e jacobian, Launch config problem x box e (jacobian : Mat α m n) start ∧
      (config.setting problem box).Runs config.maxIterations 1 start trail := by
  unfold minimize at hcourse
  split at hcourse
  · cases hcourse
  next box hvalid =>
    split at hcourse
    · cases hcourse
    next e hanswer =>
      split at hcourse
      · cases hcourse
      next jacobian hjacobian =>
        dsimp only at hcourse
        split at hcourse
        · cases hcourse
        next damping hdamping =>
          cases hcourse
          exact ⟨box, e, jacobian,
            ⟨hvalid, Iterate.answers_of hanswer rfl hjacobian, rfl, rfl, hdamping⟩,
            Setting.runs_iterate _ _ _ _⟩

/-- Such a start is all that a solve needs to come to its first state. -/
theorem minimize_eq_iterated {config : Config α} {problem : Problem α n} {x : Vector α n}
    {box : Box α n} {e : Evaluation α} {jacobian : Mat α m n} {damping : Damping α}
    (hvalid : config.validate n = .ok box) (hanswer : problem 0 x true = .ok e)
    (hsize : e.residuals.size = m) (hjacobian : e.jacobianOf m n = .ok jacobian)
    (hdamping : Damping.start? config.tau jacobian.gram.diagonal.toList = some damping) :
    minimize config problem x =
      .iterated m (.begin (.of x ⟨e.residuals, hsize⟩ jacobian) damping)
        ((config.setting problem box).iterate config.maxIterations 1
          (.begin (.of x ⟨e.residuals, hsize⟩ jacobian) damping)) := by
  subst hsize
  have hstart : Damping.start? config.tau
      (Iterate.of x e.vector jacobian).gram.diagonal.toList = some damping := hdamping
  unfold minimize
  rw [hvalid]
  dsimp only
  rw [hanswer]
  dsimp only
  rw [hjacobian]
  dsimp only
  rw [hstart]
  rfl

/-- A start at which the Jacobian vanishes is where the solve stops. -/
theorem minimize_eq_stationary {config : Config α} {problem : Problem α n} {x : Vector α n}
    {box : Box α n} {e : Evaluation α} {jacobian : Mat α e.residuals.size n}
    (hvalid : config.validate n = .ok box) (hanswer : problem 0 x true = .ok e)
    (hjacobian : e.jacobianOf e.residuals.size n = .ok jacobian)
    (hdamping : Damping.start? config.tau jacobian.gram.diagonal.toList = none) :
    minimize config problem x = .stationary _ (.of x e.vector jacobian) := by
  have hstart : Damping.start? config.tau
      (Iterate.of x e.vector jacobian).gram.diagonal.toList = none := hdamping
  unfold minimize
  rw [hvalid]
  dsimp only
  rw [hanswer]
  dsimp only
  rw [hjacobian]
  dsimp only
  rw [hstart]

/-- How a solve comes to stop at its start: the options fit, the start is answered with a Jacobian
of the right shape, and that leaves too little damping to start with. -/
structure Rest (config : Config α) (problem : Problem α n) (x : Vector α n) (box : Box α n)
    (e : Evaluation α) (jacobian : Mat α m n) (it : Iterate α m n) : Prop where
  validate_eq : config.validate n = .ok box
  answers : it.Answers problem 0 e jacobian
  point_eq : it.point = x
  damping_eq : Damping.start? config.tau jacobian.gram.diagonal.toList = none

theorem exists_rest {config : Config α} {problem : Problem α n} {x : Vector α n}
    {it : Iterate α m n} (hcourse : minimize config problem x = .stationary m it) :
    ∃ box e jacobian, Rest config problem x box e (jacobian : Mat α m n) it := by
  unfold minimize at hcourse
  split at hcourse
  · cases hcourse
  next box hvalid =>
    split at hcourse
    · cases hcourse
    next e hanswer =>
      split at hcourse
      · cases hcourse
      next jacobian hjacobian =>
        dsimp only at hcourse
        split at hcourse
        next hnone =>
          cases hcourse
          exact ⟨box, e, jacobian, hvalid, Iterate.answers_of hanswer rfl hjacobian, rfl, hnone⟩
        · cases hcourse

/-- A solve that stops at once has only evaluated its start. -/
theorem answers_of_stationary {config : Config α} {problem : Problem α n} {x : Vector α n}
    {it : Iterate α m n} (hcourse : minimize config problem x = .stationary m it) :
    it.point = x ∧ ∃ e jacobian, it.Answers problem 0 e jacobian := by
  obtain ⟨_, e, jacobian, hrest⟩ := exists_rest hcourse
  exact ⟨hrest.point_eq, e, jacobian, hrest.answers⟩

namespace Course

variable {start : State α m n} {trail : Trail α m n}

/-- A solve that ends without a factorization ends in a fault that says so. -/
theorem outcome_of_singular (hending : trail.ending = .singular) (recordTrace : Bool) :
    (iterated m start trail).outcome recordTrace = .error (.notPositiveDefinite n) := by
  unfold outcome
  dsimp only
  rw [hending]

/-- A fault of the problem is handed on. -/
theorem outcome_of_refused {trial : Vector α n} {fault : Fault α}
    (hending : trail.ending = .refused trial fault) (recordTrace : Bool) :
    (iterated m start trail).outcome recordTrace = .error fault := by
  unfold outcome
  dsimp only
  rw [hending]

theorem outcome_of_stopped {reason : StopReason} (hending : trail.ending = .stopped reason)
    (recordTrace : Bool) :
    (iterated m start trail).outcome recordTrace =
      .ok (solutionAt (trail.last start).current trail.attempts.length
        (iterated m start trail).calls.length reason
        (if recordTrace then some trail.records else none)) := by
  unfold outcome
  dsimp only
  rw [hending]

end Course

/-- A solution shows the start, if that is where the solve stopped at once, or else the state after
the last attempt. -/
theorem Course.solution_cases {course : Course α n} {recordTrace : Bool} {solution : Solution α n}
    (houtcome : course.outcome recordTrace = .ok solution) :
    (∃ (m : Nat) (it : Iterate α m n), course = .stationary m it ∧
      solution = solutionAt it 0 course.calls.length .localMinimum
        (if recordTrace then some [] else none)) ∨
    ∃ (m : Nat) (start : State α m n) (trail : Trail α m n) (reason : StopReason),
      course = .iterated m start trail ∧ trail.ending = .stopped reason ∧
      solution = solutionAt (trail.last start).current trail.attempts.length course.calls.length
        reason (if recordTrace then some trail.records else none) := by
  unfold outcome at houtcome
  split at houtcome
  · cases houtcome
  · cases houtcome
  next m it =>
    cases houtcome
    exact Or.inl ⟨m, it, rfl, rfl⟩
  next m start trail =>
    split at houtcome
    · cases houtcome
    · cases houtcome
    next reason hending =>
      cases houtcome
      exact Or.inr ⟨m, start, trail, reason, rfl, hending, rfl⟩

end LeastSquares
