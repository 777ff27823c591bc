import Mathlib
import LeastSquares.Display
import LeastSquares.Proofs.Alignment
import LeastSquares.Proofs.Clipping

/-! # Jacobians at rejected points

A step is accepted or rejected by its residuals alone, and all that is computed from a Jacobian is
computed from an accepted one. So the Jacobian answered at a point that is then rejected has no part
in a solve: another matrix, one of a wrong shape, or none at all makes no difference. The arithmetic
is arbitrary.
-/

namespace LeastSquares

variable {α : Type} [Scalar α] {m n : Nat}

namespace Setting

variable {c : Setting α n} {problem : Problem α n} {i : Nat} {s : State α m n}
  {a : Attempt α m n}

/-- Once a step was found, an attempt is what is made of the answer at the trial point. -/
theorem attempt_eq_judge {step : Step α n} {e : Evaluation α} (hstep : s.step? c.style = some step)
    (hanswer : c.problem i (c.box.clip (plus s.current.point step.move)) true = .ok e) :
    c.attempt i s = (judge s step (c.box.clip (plus s.current.point step.move)) e i).mapError
      (Ending.refused (c.box.clip (plus s.current.point step.move))) := by
  unfold attempt
  rw [hstep]
  dsimp only
  rw [hanswer]
  dsimp only
  cases judge s step (c.box.clip (plus s.current.point step.move)) e i <;> rfl

/-- A step that residuals rule out is rejected, whatever the Jacobian. -/
theorem judge_congr_residuals {step : Step α n} {trial : Vector α n} {e e' : Evaluation α}
    (hresiduals : e'.residuals = e.residuals)
    (hrejected : ¬Scalar.zero < Damping.gainRatio s.current.cost e.cost step.denominator) :
    judge s step trial e' i = judge s step trial e i := by
  obtain ⟨residuals, jacobian⟩ := e
  obtain ⟨residuals', jacobian'⟩ := e'
  dsimp only at hresiduals
  subst hresiduals
  -- The costs are the same, since they are made of the residuals.
  have hrejected' : ¬Scalar.zero < Damping.gainRatio s.current.cost
      (Evaluation.cost ⟨residuals', jacobian'⟩) step.denominator := hrejected
  unfold judge
  dsimp only
  by_cases hsize : residuals'.size = m
  · rw [dif_pos hsize, dif_pos hsize, if_neg hrejected, if_neg hrejected']
    rfl
  · rw [dif_neg hsize, dif_neg hsize]

/-- An attempt that was rejected depends on the residuals only. -/
theorem attempt_of_rejected (ha : c.attempt i s = .ok a) (hrejected : a.accepted = false)
    (hresiduals : (problem i a.trial true).map Evaluation.residuals =
      (c.problem i a.trial true).map Evaluation.residuals) :
    ({ c with problem } : Setting α n).attempt i s = .ok a := by
  obtain ⟨step, e, hmade⟩ := made_of_attempt ha
  rw [hmade.answer_eq] at hresiduals
  cases hanswer : problem i a.trial true with
  | error fault =>
      rw [hanswer] at hresiduals
      cases hresiduals
  | ok e' =>
      rw [hanswer] at hresiduals
      have hsame : e'.residuals = e.residuals := Except.ok.inj hresiduals
      have hratio : ¬Scalar.zero < Damping.gainRatio s.current.cost e.cost step.denominator := by
        rw [← hmade.ratio_eq]
        exact of_decide_eq_false hrejected
      have hanswer₀ := hmade.answer_eq
      rw [hmade.trial_eq] at hanswer hanswer₀
      rw [← ha, attempt_eq_judge hmade.step_eq hanswer₀,
        attempt_eq_judge (c := { c with problem }) hmade.step_eq hanswer,
        judge_congr_residuals hsame hratio]

end Setting

/-- What a problem answers to a call. -/
def Call.answer (call : Call α n) (problem : Problem α n) (k : Nat) :
    Except (Fault α) (Evaluation α) :=
  problem k call.point call.wantsJacobian

/-- Call `k` of a course was made at a trial point that was rejected. -/
def Course.Rejects (course : Course α n) (k : Nat) : Prop :=
  ∃ j, k = j + 1 ∧ course.decisions[j]? = some false

/-- One problem answers the calls of a course as the other does, except perhaps for the Jacobians at
the points that were rejected. -/
def Course.AnsweredAlike (course : Course α n) (problem problem' : Problem α n) : Prop :=
  ∀ k call, course.calls[k]? = some call →
    call.answer problem' k = call.answer problem k ∨
      (course.Rejects k ∧ (call.answer problem' k).map Evaluation.residuals =
        (call.answer problem k).map Evaluation.residuals)

section Solve

variable {config : Config α} {problem problem' : Problem α n} {x : Vector α n}

/-- Where all answers are alike, the attempts that a solve goes on to are the same. -/
theorem Setting.attempt_congr_of_answeredAlike {c : Setting α n} {remaining : Nat}
    {start s : State α m n} {t : Trail α m n} (hrun : c.Runs remaining 1 start t)
    (halike : (Course.iterated m start t).AnsweredAlike c.problem problem) {k : Nat}
    (hs : (t.states start)[k]? = some s) (hon : t.GoesOn remaining c.tolerances k) :
    ({ c with problem } : Setting α n).attempt (k + 1) s = c.attempt (k + 1) s := by
  cases htrial : c.trial? s with
  | none =>
      refine attempt_congr rfl rfl ?_
      intro p hp
      rw [htrial] at hp
      cases hp
  | some p =>
      have hp : t.trials[k]? = some p := hrun.trials_eq_some_iff.mpr ⟨s, hs, hon, htrial⟩
      have hcall : (Course.iterated m start t).calls[k + 1]? = some ⟨true, p⟩ := by
        rw [Course.calls_succ_eq, hp]
        rfl
      rcases halike (k + 1) ⟨true, p⟩ hcall with hanswer | ⟨⟨j, hj, hdecision⟩, hresiduals⟩
      · refine attempt_congr rfl rfl ?_
        intro q hq
        cases htrial.symm.trans hq
        exact hanswer
      · obtain rfl : k = j := Nat.succ.inj hj
        rw [Course.decisions, List.getElem?_map] at hdecision
        obtain ⟨a, ha, hrejected⟩ := Option.map_eq_some_iff.mp hdecision
        have hattempt := hrun.attempt_eq hs ha
        cases (Trail.trials_of_attempt ha).symm.trans hp
        rw [hattempt]
        exact attempt_of_rejected hattempt hrejected hresiduals

theorem minimize_congr_of_answeredAlike
    (halike : (minimize config problem x).AnsweredAlike problem problem') :
    minimize config problem' x = minimize config problem x := by
  cases hvalid : config.validate n with
  | error fault =>
      rw [minimize_eq_invalid_iff.mpr hvalid, minimize_eq_invalid_iff.mpr hvalid]
  | ok box =>
      have hanswer : problem' 0 x true = problem 0 x true := by
        rcases halike 0 ⟨true, x⟩ (calls_zero_of_validate hvalid) with
          hanswer | ⟨⟨_, hzero, _⟩, _⟩
        · exact hanswer
        · cases hzero
      rcases minimize_aligned hvalid hvalid rfl hanswer with
        hsame | ⟨m, start, hcourse, hcourse'⟩
      · exact hsame
      · rw [hcourse] at halike
        rw [hcourse, hcourse']
        refine congrArg (Course.iterated m start)
          ((Setting.iterate_congr ?_ _ ?_).2 (Nat.lt_succ_self _))
        · rfl
        · intro k s _ hs hon
          have hrun := (config.setting problem box).runs_iterate config.maxIterations 1 start
          exact Setting.attempt_congr_of_answeredAlike hrun halike hs hon

end Solve

/-- Two problems that differ only in what Jacobians they answer at points rejected by the solve of
the one are solved alike, call by call: in the end there is the same solution with the same trace,
or the same fault, and the same lines are printed. -/
theorem minimize_ignores_rejected_jacobians [NumberText α] (config : Config α)
    (problem problem' : Problem α n) (x : Vector α n)
    (halike : (minimize config problem x).AnsweredAlike problem problem') :
    (minimize config problem' x).calls = (minimize config problem x).calls ∧
    (∀ recordTrace, (minimize config problem' x).outcome recordTrace =
      (minimize config problem x).outcome recordTrace) ∧
    Display.lines config (minimize config problem' x) =
      Display.lines config (minimize config problem x) := by
  rw [minimize_congr_of_answeredAlike halike]
  exact ⟨rfl, fun _ => rfl, rfl⟩

/-- The Jacobian at the first trial point, where the residuals are larger, is missing from the one
problem. Nothing at all can be seen of it. -/
theorem minimize_ignores_missing_jacobian :
    let config : Config Float := { Config.standard with maxIterations := 2 }
    let residuals : Nat → Array Float := fun k =>
      #[if k = 0 then 1.0 else if k = 1 then 2.0 else 0.5]
    let problem : Problem Float 1 := fun k _ _ => .ok ⟨residuals k, some (.ofMat (.ofFn ![![1.0]]))⟩
    let problem' : Problem Float 1 := fun k _ _ =>
      .ok ⟨residuals k, if k = 1 then none else some (.ofMat (.ofFn ![![1.0]]))⟩
    let course := minimize config problem #v[3.0]
    let course' := minimize config problem' #v[3.0]
    course.decisions = [false, true] ∧ course.AnsweredAlike problem problem' ∧
      course'.calls = course.calls ∧
      (∀ recordTrace, course'.outcome recordTrace = course.outcome recordTrace) ∧
      Display.lines config course' = Display.lines config course := by
  intro config residuals problem problem' course course'
  have hdecisions : course.decisions = [false, true] := by decide +kernel +revert
  have halike : course.AnsweredAlike problem problem' := by
    intro k call _
    by_cases hk : k = 1
    · right
      subst hk
      exact ⟨⟨0, rfl, by rw [hdecisions]; rfl⟩, rfl⟩
    · left
      simp only [Call.answer, problem, problem', if_neg hk]
  exact ⟨hdecisions, halike, minimize_ignores_rejected_jacobians config problem problem' _ halike⟩

end LeastSquares
