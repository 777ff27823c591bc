import Mathlib
import LeastSquares.Display
import LeastSquares.Proofs.Run

/-! # Failures

Everything that can make a solve fail, in the order in which it is looked at: the choices, the start
and its Jacobian, and in each iteration the factorization, the call, the number of residuals and, of
an accepted step only, the Jacobian. The first of these to go wrong is what the solve fails with,
and nothing is asked or printed after it. The arithmetic is arbitrary.
-/

namespace LeastSquares

variable {α : Type} {m n : Nat}

theorem Table.toMat?_eq_none_iff (t : Table α) :
    t.toMat? m n = none ↔ ¬(t.height = m ∧ t.width = n) := by
  unfold toMat?
  split
  next hshape => simp [hshape]
  next hshape => simp [hshape]

theorem Table.shape_of_toMat? {t : Table α} {a : Mat α m n} (ha : t.toMat? m n = some a) :
    t.height = m ∧ t.width = n := by
  by_contra hshape
  rw [t.toMat?_eq_none_iff.mpr hshape] at ha
  cases ha

/-- What a Jacobian that is wanted is faulted for. -/
inductive Evaluation.LacksJacobian (e : Evaluation α) (m n : Nat) : Fault α → Prop
  | missing (hnone : e.jacobian = none) : LacksJacobian e m n .jacobianMissing
  | misshapen {t : Table α} (hsome : e.jacobian = some t)
      (hshape : ¬(t.height = m ∧ t.width = n)) :
      LacksJacobian e m n (.jacobianShape m n t.height t.width)

theorem Evaluation.jacobianOf_eq_error_iff (e : Evaluation α) (fault : Fault α) :
    e.jacobianOf m n = .error fault ↔ e.LacksJacobian m n fault := by
  unfold jacobianOf
  constructor
  · intro herror
    split at herror
    next hnone =>
      cases herror
      exact .missing hnone
    next t hsome =>
      split at herror
      next hmat =>
        cases herror
        exact .misshapen hsome (t.toMat?_eq_none_iff.mp hmat)
      · cases herror
  · rintro (hnone | ⟨hsome, hshape⟩)
    · rw [hnone]
    · rw [hsome]
      dsimp only
      rw [(Table.toMat?_eq_none_iff _).mpr hshape]

variable [Scalar α]

/-- The attempt of iteration `i` from `s` evaluates the problem at `trial` and cannot use what it
gets. The number of residuals counts whether the step would be accepted or not, the Jacobian only if
it is. -/
inductive Setting.Refuses (c : Setting α n) (i : Nat) (s : State α m n) (trial : Vector α n) :
    Fault α → Prop
  | reported {step : Step α n} {fault : Fault α} (hstep : s.step? c.style = some step)
      (htrial : trial = c.box.clip (plus s.current.point step.move))
      (hanswer : c.problem i trial true = .error fault) : Refuses c i s trial fault
  | residualCount {step : Step α n} {e : Evaluation α} (hstep : s.step? c.style = some step)
      (htrial : trial = c.box.clip (plus s.current.point step.move))
      (hanswer : c.problem i trial true = .ok e) (hsize : e.residuals.size ≠ m) :
      Refuses c i s trial (.residualCount m e.residuals.size i)
  | jacobian {step : Step α n} {e : Evaluation α} {fault : Fault α}
      (hstep : s.step? c.style = some step)
      (htrial : trial = c.box.clip (plus s.current.point step.move))
      (hanswer : c.problem i trial true = .ok e) (hsize : e.residuals.size = m)
      (haccepted : Scalar.zero < Damping.gainRatio s.current.cost e.cost step.denominator)
      (hlacks : e.LacksJacobian m n fault) : Refuses c i s trial fault

namespace Setting

/-- A refused trial point is where the step led, brought to its limits. -/
theorem Refuses.trial_eq {c : Setting α n} {i : Nat} {s : State α m n} {trial : Vector α n}
    {fault : Fault α} (hrefuses : c.Refuses i s trial fault) :
    ∃ step, s.step? c.style = some step ∧
      trial = c.box.clip (plus s.current.point step.move) := by
  cases hrefuses with
  | reported hstep htrial _ => exact ⟨_, hstep, htrial⟩
  | residualCount hstep htrial _ _ => exact ⟨_, hstep, htrial⟩
  | jacobian hstep htrial _ _ _ _ => exact ⟨_, hstep, htrial⟩

/-- A step is judged unusable for its residuals first and, if it is accepted, for its Jacobian. -/
theorem judge_eq_error_iff (s : State α m n) (step : Step α n) (trial : Vector α n)
    (e : Evaluation α) (i : Nat) (fault : Fault α) :
    judge s step trial e i = .error fault ↔
      (e.residuals.size ≠ m ∧ fault = .residualCount m e.residuals.size i) ∨
      (e.residuals.size = m ∧
        Scalar.zero < Damping.gainRatio s.current.cost e.cost step.denominator ∧
        e.LacksJacobian m n fault) := by
  unfold judge
  by_cases hsize : e.residuals.size = m
  · rw [dif_pos hsize]
    dsimp only
    by_cases hrho : Scalar.zero < Damping.gainRatio s.current.cost e.cost step.denominator
    · rw [if_pos hrho, ← e.jacobianOf_eq_error_iff]
      cases e.jacobianOf m n with
      | error fault' => simp [hsize, hrho]
      | ok jacobian => simp [hsize]
    · rw [if_neg hrho]
      simp [hsize, hrho]
  · rw [dif_neg hsize]
    simp [hsize, eq_comm]

theorem attempt_eq_refused_iff (c : Setting α n) (i : Nat) (s : State α m n) (trial : Vector α n)
    (fault : Fault α) :
    c.attempt i s = .error (.refused trial fault) ↔ c.Refuses i s trial fault := by
  unfold attempt
  constructor
  · intro hrefused
    split at hrefused
    · cases hrefused
    next step hstep =>
      dsimp only at hrefused
      split at hrefused
      next fault' hanswer =>
        cases hrefused
        exact .reported hstep rfl hanswer
      next e hanswer =>
        split at hrefused
        next fault' hjudge =>
          cases hrefused
          rcases (judge_eq_error_iff ..).mp hjudge with ⟨hsize, rfl⟩ | ⟨hsize, hrho, hlacks⟩
          · exact .residualCount hstep rfl hanswer hsize
          · exact .jacobian hstep rfl hanswer hsize hrho hlacks
        · cases hrefused
  · intro hrefuses
    cases hrefuses with
    | reported hstep htrial hanswer =>
        subst htrial
        rw [hstep]
        dsimp only
        rw [hanswer]
    | residualCount hstep htrial hanswer hsize =>
        subst htrial
        rw [hstep]
        dsimp only
        rw [hanswer]
        dsimp only
        rw [(judge_eq_error_iff ..).mpr (Or.inl ⟨hsize, rfl⟩)]
    | jacobian hstep htrial hanswer hsize hrho hlacks =>
        subst htrial
        rw [hstep]
        dsimp only
        rw [hanswer]
        dsimp only
        rw [(judge_eq_error_iff ..).mpr (Or.inr ⟨hsize, hrho, hlacks⟩)]

namespace Runs

variable {c : Setting α n} {remaining i : Nat} {start : State α m n} {t : Trail α m n}

/-- A run that did not stop failed in the attempt after its last one. -/
theorem attempt_of_not_stopped (hrun : c.Runs remaining i start t)
    (hending : ∀ reason, t.ending ≠ .stopped reason) :
    c.attempt (t.attempts.length + i) (t.last start) = .error t.ending := by
  have hon := hrun.goesOn_of_not_stopped hending
  rcases hrun.attempt_of_goesOn (t.last_eq start) hon with ⟨a, ha, _⟩ | ⟨_, herror⟩
  · rw [List.getElem?_eq_none (Nat.le_refl _)] at ha
    cases ha
  · exact herror

end Runs

end Setting

section Launch

variable {config : Config α} {problem : Problem α n} {x : Vector α n}

theorem minimize_eq_invalid_iff {fault : Fault α} :
    minimize config problem x = .invalid fault ↔ config.validate n = .error fault := by
  unfold minimize
  constructor
  · intro hcourse
    split at hcourse
    next hinvalid =>
      cases hcourse
      exact hinvalid
    · split at hcourse
      · cases hcourse
      · split at hcourse
        · cases hcourse
        · dsimp only at hcourse
          split at hcourse
          · cases hcourse
          · cases hcourse
  · intro hinvalid
    rw [hinvalid]

/-- The answer at the start is unusable if it is a fault or lacks a Jacobian for its residuals. -/
theorem minimize_eq_unusable_iff {p : Vector α n} {fault : Fault α} :
    minimize config problem x = .unusable p fault ↔
      p = x ∧ ∃ box, config.validate n = .ok box ∧
        (problem 0 x true = .error fault ∨
          ∃ e, problem 0 x true = .ok e ∧ e.LacksJacobian e.residuals.size n fault) := by
  unfold minimize
  constructor
  · intro hcourse
    split at hcourse
    · cases hcourse
    next box hvalid =>
      split at hcourse
      next hanswer =>
        cases hcourse
        exact ⟨rfl, box, hvalid, Or.inl hanswer⟩
      next e hanswer =>
        split at hcourse
        next hjacobian =>
          cases hcourse
          exact ⟨rfl, box, hvalid, Or.inr ⟨e, hanswer, (e.jacobianOf_eq_error_iff _).mp hjacobian⟩⟩
        · dsimp only at hcourse
          split at hcourse
          · cases hcourse
          · cases hcourse
  · rintro ⟨rfl, box, hvalid, hanswer | ⟨e, hanswer, hlacks⟩⟩
    · rw [hvalid]
      dsimp only
      rw [hanswer]
    · rw [hvalid]
      dsimp only
      rw [hanswer]
      dsimp only
      rw [(e.jacobianOf_eq_error_iff _).mpr hlacks]

end Launch

namespace Display

variable [NumberText α]

end Display

variable [NumberText α]

variable {config : Config α} {problem : Problem α n} {x : Vector α n}

end LeastSquares
