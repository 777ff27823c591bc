import Mathlib
import LeastSquares.Proofs.Regularity

/-! # Descent

In exact arithmetic a step is accepted exactly if its denominator is positive and the cost at the
trial point is lower. Neither the bounds nor what the problem answers elsewhere matter: the
denominator belongs to the step before it is clipped, and all that is asked of the trial point is
its cost. So the cost falls at every accepted attempt, stays at every rejected one, and the solution
is never worse than the start.
-/

namespace LeastSquares

variable {α : Type} [ExactScalar α] {m n : Nat}

/-- What the attempt `a`, made in `s` and answered `e`, does to the cost. -/
structure Attempt.Descends (s : State α m n) (e : Evaluation α) (a : Attempt α m n) : Prop where
  denominator_nonneg : 0 ≤ a.denominator
  lower_of_accepted : a.accepted = true → e.cost < s.current.cost
  accepted_of_lower : 0 < a.denominator → e.cost < s.current.cost → a.accepted = true
  cost_of_accepted : a.accepted = true → a.next.current.cost = e.cost
  cost_of_rejected : a.accepted = false → a.next.current.cost = s.current.cost

namespace Attempt

variable {c : Setting α n} {i : Nat} {s : State α m n} {step : Step α n} {e : Evaluation α}
  {a : Attempt α m n} {jacobian : Mat α m n}

theorem Made.accepted_iff (ha : a.Made c i s step e) (hs : s.Regular jacobian) :
    a.accepted = true ↔ 0 < a.denominator ∧ e.cost < s.current.cost := by
  have hdenominator : 0 ≤ step.denominator := hs.denominator_nonneg ha.step_eq
  rw [accepted, decide_eq_true_iff, Scalar.zero_eq, ha.ratio_eq, ha.denominator_eq]
  exact Damping.gainRatio_pos_iff hdenominator

/-- One attempt from a regular state descends. -/
theorem Made.descends (ha : a.Made c i s step e) (hs : s.Regular jacobian) : a.Descends s e := by
  have hiff := ha.accepted_iff hs
  refine ⟨?_, fun haccepted => (hiff.mp haccepted).2, fun hpos hlower => hiff.mpr ⟨hpos, hlower⟩,
    ha.cost_of_accepted, ?_⟩
  · rw [ha.denominator_eq]
    exact hs.denominator_nonneg ha.step_eq
  · intro hrejected
    rw [ha.next_of_rejected hrejected]
    rfl

theorem Descends.cost_le (ha : a.Descends s e) : a.next.current.cost ≤ s.current.cost := by
  cases haccepted : a.accepted with
  | true =>
      rw [ha.cost_of_accepted haccepted]
      exact (ha.lower_of_accepted haccepted).le
  | false => exact (ha.cost_of_rejected haccepted).le

end Attempt

section Solve

variable {config : Config α} {problem : Problem α n} {x : Vector α n} {start s : State α m n}
  {trail : Trail α m n} {k : Nat}

/-- Every attempt of a solve descends. -/
theorem exists_descends (hcourse : minimize config problem x = .iterated m start trail)
    {a : Attempt α m n} (hs : (trail.states start)[k]? = some s)
    (ha : trail.attempts[k]? = some a) :
    ∃ e, problem (k + 1) a.trial true = .ok e ∧ a.Descends s e := by
  obtain ⟨box, _, _, _, hrun⟩ := exists_launch hcourse
  obtain ⟨step, e, hmade⟩ := Setting.made_of_attempt (hrun.attempt_eq hs ha)
  obtain ⟨_, _, jacobian, _, _, hregular⟩ := exists_regular hcourse hs
  exact ⟨e, hmade.answer_eq, hmade.descends hregular⟩

/-- No state of a solve is worse than the start. -/
theorem cost_le_start (hcourse : minimize config problem x = .iterated m start trail)
    (hs : (trail.states start)[k]? = some s) : s.current.cost ≤ start.current.cost := by
  obtain ⟨box, _, _, _, hrun⟩ := exists_launch hcourse
  refine hrun.invariant (P := fun _ s => s.current.cost ≤ start.current.cost) le_rfl ?_ hs
  intro k s a hs ha _ hle
  obtain ⟨e, _, hdescends⟩ := exists_descends hcourse hs ha
  exact hdescends.cost_le.trans hle

end Solve

/-- The law of descent. In every state that a solve reaches, the denominator of the step from it is
not negative, and a trial point is accepted exactly if the denominator is positive and the cost
there is lower, also where the solve then fails for lack of a Jacobian. The attempts carried through
descend accordingly, and a solution costs no more than the start. -/
theorem minimize_descends (config : Config α) (problem : Problem α n) (x : Vector α n) :
    (∀ (m : Nat) (start : State α m n) (trail : Trail α m n),
      minimize config problem x = .iterated m start trail →
      (∀ (k : Nat) (s : State α m n) (step : Step α n), (trail.states start)[k]? = some s →
        s.step? config.damping = some step →
        0 ≤ step.denominator ∧ ∀ newCost,
          0 < Damping.gainRatio s.current.cost newCost step.denominator ↔
            0 < step.denominator ∧ newCost < s.current.cost) ∧
      ∀ (k : Nat) (s : State α m n) (a : Attempt α m n), (trail.states start)[k]? = some s →
        trail.attempts[k]? = some a →
        ∃ e, problem (k + 1) a.trial true = .ok e ∧ a.Descends s e) ∧
    ∀ recordTrace solution, (minimize config problem x).outcome recordTrace = .ok solution →
      ∃ e, problem 0 x true = .ok e ∧ solution.cost ≤ e.cost := by
  constructor
  · intro m start trail hcourse
    constructor
    · intro k s step hs hstep
      obtain ⟨_, _, jacobian, _, _, hregular⟩ := exists_regular hcourse hs
      have hdenominator := hregular.denominator_nonneg hstep
      exact ⟨hdenominator, fun newCost => Damping.gainRatio_pos_iff hdenominator⟩
    · intro k s a hs ha
      exact exists_descends hcourse hs ha
  · intro recordTrace solution houtcome
    rcases Course.solution_cases houtcome with
      ⟨m, it, hcourse, rfl⟩ | ⟨m, start, trail, reason, hcourse, _, rfl⟩
    · obtain ⟨rfl, e, jacobian, hanswers⟩ := answers_of_stationary hcourse
      exact ⟨e, hanswers.answer_eq, hanswers.cost_eq_cost.le⟩
    · obtain ⟨box, e, jacobian, hlaunch, _⟩ := exists_launch hcourse
      have hanswers := hlaunch.answers
      refine ⟨e, hlaunch.point_eq ▸ hanswers.answer_eq, ?_⟩
      rw [← hanswers.cost_eq_cost]
      exact cost_le_start hcourse (trail.last_eq start)

end LeastSquares
