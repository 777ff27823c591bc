import Mathlib
import LeastSquares.Proofs.Coherence
import LeastSquares.Proofs.Failure

/-! # Solves side by side

Two solves that get the same answer at the start begin alike, and from then on they are compared
attempt by attempt. As long as the attempts come out the same in both, their trails are the same.
Only those attempts matter that the solves go on to, and these can be told by the points at which
the problem is evaluated. The arithmetic is arbitrary.
-/

namespace LeastSquares

variable {α : Type} {m n : Nat}

namespace Trail

variable {t : Trail α m n} {k : Nat}

theorem trials_of_refused {p : Vector α n} {fault : Fault α}
    (hending : t.ending = .refused p fault) : t.trials[t.attempts.length]? = some p := by
  have hlength : (t.attempts.map Attempt.trial).length ≤ t.attempts.length :=
    (List.length_map _).le
  rw [trials, hending, List.getElem?_append_right hlength, List.length_map, Nat.sub_self]
  rfl

/-- A point is evaluated in an attempt that is carried through or in the one that fails. -/
theorem trials_cases {p : Vector α n} (hp : t.trials[k]? = some p) :
    (∃ a, t.attempts[k]? = some a ∧ a.trial = p) ∨
      (k = t.attempts.length ∧ ∃ fault, t.ending = .refused p fault) := by
  rcases Nat.lt_or_ge k t.attempts.length with hk | hk
  · have ha := List.getElem?_eq_getElem hk
    exact Or.inl ⟨_, ha, Option.some.inj ((trials_of_attempt ha).symm.trans hp)⟩
  · rw [trials, List.getElem?_append_right (by simpa using hk)] at hp
    cases hending : t.ending with
    | stopped reason => simp [hending] at hp
    | singular => simp [hending] at hp
    | refused trial fault =>
        simp only [hending, List.length_map, List.getElem?_singleton] at hp
        split at hp
        next hzero =>
          cases hp
          exact Or.inr ⟨by omega, fault, rfl⟩
        · cases hp

/-- Trails with the same first attempts have the same first states. -/
theorem states_congr {t' : Trail α m n} (start : State α m n)
    (htake : t'.attempts.take k = t.attempts.take k) {j : Nat} (hj : j ≤ k) :
    (t'.states start)[j]? = (t.states start)[j]? := by
  cases j with
  | zero => rfl
  | succ j =>
      rw [states, states, List.getElem?_cons_succ, List.getElem?_cons_succ, List.getElem?_map,
        List.getElem?_map, ← List.getElem?_take_of_lt (Nat.lt_of_succ_le hj), htake,
        List.getElem?_take_of_lt (Nat.lt_of_succ_le hj)]

/-- Trails with the same first attempts evaluate the same points in them. -/
theorem trials_congr {t' : Trail α m n} (htake : t'.attempts.take k = t.attempts.take k) {j : Nat}
    (hj : j < k) (hlength : j < t.attempts.length) : t'.trials[j]? = t.trials[j]? := by
  have ha := List.getElem?_eq_getElem hlength
  have ha' := ha
  rw [← List.getElem?_take_of_lt hj, ← htake, List.getElem?_take_of_lt hj] at ha'
  rw [trials_of_attempt ha, trials_of_attempt ha']

end Trail

variable [Scalar α]

/-- Whether a solve goes on to an attempt depends on the attempts before it only. -/
theorem Trail.GoesOn.congr {t t' : Trail α m n} {cap k : Nat} {tolerances : Tolerances α}
    (hon : t.GoesOn cap tolerances k) (htake : t'.attempts.take k = t.attempts.take k) :
    t'.GoesOn cap tolerances k := by
  refine ⟨hon.1, ?_⟩
  intro j a hj ha
  rw [← List.getElem?_take_of_lt hj, htake, List.getElem?_take_of_lt hj] at ha
  exact hon.2 j a hj ha

/-- A trail goes on to an attempt if its first attempt does not end it and the rest goes on. -/
theorem Trail.GoesOn.cons {rest : Trail α m n} {a : Attempt α m n} {cap k : Nat}
    {tolerances : Tolerances α} (ha : a.verdict tolerances = .running)
    (hon : rest.GoesOn cap tolerances k) :
    Trail.GoesOn ⟨a :: rest.attempts, rest.ending⟩ (cap + 1) tolerances (k + 1) := by
  refine ⟨Nat.succ_lt_succ hon.1, ?_⟩
  intro j b hj hb
  cases j with
  | zero =>
      cases hb
      exact ha
  | succ j => exact hon.2 j b (Nat.lt_of_succ_lt_succ hj) hb

namespace Setting

variable {c c' : Setting α n} {remaining i : Nat} {s : State α m n} {a : Attempt α m n}

theorem iterate_of_error {ending : Ending α n} (hfailed : c.attempt i s = .error ending) :
    c.iterate (remaining + 1) i s = ⟨[], ending⟩ := by
  rw [iterate, hfailed]

theorem iterate_of_stopped {reason : StopReason} (ha : c.attempt i s = .ok a)
    (hverdict : a.verdict c.tolerances = .stopped reason) :
    c.iterate (remaining + 1) i s = ⟨[a], .stopped reason⟩ := by
  rw [iterate, ha]
  dsimp only
  rw [hverdict]

theorem iterate_of_running (ha : c.attempt i s = .ok a)
    (hverdict : a.verdict c.tolerances = .running) :
    c.iterate (remaining + 1) i s =
      ⟨a :: (c.iterate remaining (i + 1) a.next).attempts,
        (c.iterate remaining (i + 1) a.next).ending⟩ := by
  rw [iterate, ha]
  dsimp only
  rw [hverdict]

/-- If the first `k` attempts that a solve goes on to come out the same in another, so do the first
`k` attempts of their trails. If the solve goes on to no more than these, the trails are the
same. -/
theorem iterate_congr (htolerances : c'.tolerances = c.tolerances) (k : Nat)
    (hagree : ∀ j s', j < k → ((c.iterate remaining i s).states s)[j]? = some s' →
      (c.iterate remaining i s).GoesOn remaining c.tolerances j →
      c'.attempt (j + i) s' = c.attempt (j + i) s') :
    (c'.iterate remaining i s).attempts.take k = (c.iterate remaining i s).attempts.take k ∧
      ((c.iterate remaining i s).attempts.length < k →
        c'.iterate remaining i s = c.iterate remaining i s) := by
  induction remaining generalizing k i s with
  | zero => exact ⟨rfl, fun _ => rfl⟩
  | succ remaining ih =>
      cases k with
      | zero => exact ⟨rfl, fun hlt => absurd hlt (Nat.not_lt_zero _)⟩
      | succ k =>
          have hfirst := hagree 0 s (Nat.succ_pos k) rfl
            ((c.iterate (remaining + 1) i s).goesOn_zero (Nat.succ_pos remaining) c.tolerances)
          rw [Nat.zero_add] at hfirst
          cases ha : c.attempt i s with
          | error ending =>
              rw [iterate_of_error ha, iterate_of_error (hfirst.trans ha)]
              exact ⟨rfl, fun _ => rfl⟩
          | ok a =>
              cases hverdict : a.verdict c.tolerances with
              | stopped reason =>
                  rw [iterate_of_stopped ha hverdict,
                    iterate_of_stopped (hfirst.trans ha) (htolerances ▸ hverdict)]
                  exact ⟨rfl, fun _ => rfl⟩
              | running =>
                  rw [iterate_of_running ha hverdict] at hagree ⊢
                  rw [iterate_of_running (hfirst.trans ha) (htolerances ▸ hverdict)]
                  -- Attempt `j + 1` of the solve is attempt `j` of the rest.
                  obtain ⟨htake, hsame⟩ := ih (i := i + 1) (s := a.next) k (by
                    intro j s' hj hs' hon
                    have hnumber : j + 1 + i = j + (i + 1) := by omega
                    rw [← hnumber]
                    exact hagree (j + 1) s' (Nat.succ_lt_succ hj) hs' (hon.cons hverdict))
                  refine ⟨congrArg (a :: ·) htake, fun hlt => ?_⟩
                  rw [hsame (Nat.lt_of_succ_lt_succ hlt)]

/-- Where the next attempt evaluates the problem, if there is a step. -/
def trial? (c : Setting α n) (s : State α m n) : Option (Vector α n) :=
  (s.step? c.style).map fun step => c.box.clip (plus s.current.point step.move)

theorem trial?_eq_some {step : Step α n} (hstep : s.step? c.style = some step) :
    c.trial? s = some (c.box.clip (plus s.current.point step.move)) := by
  rw [trial?, hstep]
  rfl

/-- Attempts from the same state come out the same if they are made at the same point and get the
same answer there. -/
theorem attempt_congr (hstyle : c'.style = c.style) (htrial : c'.trial? s = c.trial? s)
    (hanswer : ∀ p, c.trial? s = some p → c'.problem i p true = c.problem i p true) :
    c'.attempt i s = c.attempt i s := by
  unfold attempt
  rw [hstyle]
  cases hstep : s.step? c.style with
  | none => rfl
  | some step =>
      have hpoint := trial?_eq_some hstep
      have hpoint' : c'.trial? s = some (c'.box.clip (plus s.current.point step.move)) :=
        trial?_eq_some (hstyle ▸ hstep)
      rw [hpoint', hpoint] at htrial
      dsimp only
      rw [Option.some.inj htrial, hanswer _ hpoint]

/-- The points of a trail are those of the attempts that the solve goes on to. -/
theorem Runs.trials_eq_some_iff {start : State α m n} {t : Trail α m n}
    (hrun : c.Runs remaining i start t) {k : Nat} {p : Vector α n} :
    t.trials[k]? = some p ↔
      ∃ s, (t.states start)[k]? = some s ∧ t.GoesOn remaining c.tolerances k ∧
        c.trial? s = some p := by
  constructor
  · intro hp
    rcases Trail.trials_cases hp with ⟨a, ha, rfl⟩ | ⟨rfl, fault, hending⟩
    · obtain ⟨s, hs⟩ := t.exists_state start ha
      have hk : k < t.attempts.length := (List.getElem?_eq_some_iff.mp ha).1
      refine ⟨s, hs, ⟨hk.trans_le hrun.length_le, ?_⟩, ?_⟩
      · intro j b hj hb
        exact hrun.verdict_eq_running hb (by omega)
      · obtain ⟨step, e, hmade⟩ := made_of_attempt (hrun.attempt_eq hs ha)
        rw [hmade.trial_eq, trial?_eq_some hmade.step_eq]
    · have hstopped : ∀ reason, t.ending ≠ .stopped reason := by
        intro reason
        rw [hending]
        nofun
      have hfailed := hrun.attempt_of_not_stopped hstopped
      rw [hending, attempt_eq_refused_iff] at hfailed
      obtain ⟨step, hstep, htrial⟩ := hfailed.trial_eq
      refine ⟨t.last start, t.last_eq start, hrun.goesOn_of_not_stopped hstopped, ?_⟩
      rw [htrial, trial?_eq_some hstep]
  · rintro ⟨s, hs, hon, hp⟩
    obtain ⟨step, hstep, rfl⟩ := Option.map_eq_some_iff.mp hp
    rcases hrun.attempt_of_goesOn hs hon with ⟨a, ha, hattempt⟩ | ⟨rfl, hfailed⟩
    · obtain ⟨step', e, hmade⟩ := made_of_attempt hattempt
      cases hstep.symm.trans hmade.step_eq
      rw [Trail.trials_of_attempt ha, hmade.trial_eq]
    · cases hending : t.ending with
      | stopped reason =>
          rw [hending] at hfailed
          exact absurd hfailed (c.attempt_ne_stopped _ s reason)
      | singular =>
          rw [hending, attempt_eq_singular_iff, hstep] at hfailed
          cases hfailed
      | refused trial fault =>
          rw [hending, attempt_eq_refused_iff] at hfailed
          obtain ⟨step', hstep', rfl⟩ := hfailed.trial_eq
          cases hstep.symm.trans hstep'
          exact Trail.trials_of_refused hending

end Setting

/-- Two solves whose choices fit and whose start is answered alike are the same, or they come to the
same first state and differ in what follows only. -/
theorem minimize_aligned {config config' : Config α} {problem problem' : Problem α n}
    {x : Vector α n} {box box' : Box α n} (hvalid : config.validate n = .ok box)
    (hvalid' : config'.validate n = .ok box') (htau : config'.tau = config.tau)
    (hanswer : problem' 0 x true = problem 0 x true) :
    minimize config' problem' x = minimize config problem x ∨
      ∃ (m : Nat) (start : State α m n),
        minimize config problem x = .iterated m start
          ((config.setting problem box).iterate config.maxIterations 1 start) ∧
        minimize config' problem' x = .iterated m start
          ((config'.setting problem' box').iterate config'.maxIterations 1 start) := by
  cases hfirst : problem 0 x true with
  | error fault =>
      left
      rw [minimize_eq_unusable_iff.mpr ⟨rfl, box, hvalid, Or.inl hfirst⟩,
        minimize_eq_unusable_iff.mpr ⟨rfl, box', hvalid', Or.inl (hanswer.trans hfirst)⟩]
  | ok e =>
      cases hjacobian : e.jacobianOf e.residuals.size n with
      | error fault =>
          have hlacks := (e.jacobianOf_eq_error_iff fault).mp hjacobian
          left
          rw [minimize_eq_unusable_iff.mpr ⟨rfl, box, hvalid, Or.inr ⟨e, hfirst, hlacks⟩⟩,
            minimize_eq_unusable_iff.mpr
              ⟨rfl, box', hvalid', Or.inr ⟨e, hanswer.trans hfirst, hlacks⟩⟩]
      | ok jacobian =>
          cases hdamping : Damping.start? config.tau jacobian.gram.diagonal.toList with
          | none =>
              left
              rw [minimize_eq_stationary hvalid hfirst hjacobian hdamping,
                minimize_eq_stationary hvalid' (hanswer.trans hfirst) hjacobian
                  (htau ▸ hdamping)]
          | some damping =>
              exact Or.inr ⟨_, _, minimize_eq_iterated hvalid hfirst rfl hjacobian hdamping,
                minimize_eq_iterated hvalid' (hanswer.trans hfirst) rfl hjacobian
                  (htau ▸ hdamping)⟩

end LeastSquares
