import Mathlib
import LeastSquares.Proofs.Prefix

/-! # Solves in translation

Two solves may differ in what their points and residuals are and yet be the same in everything that
is decided by: costs, gain ratios, damping. A translation says how the one is read as the other. If
from translated states both find steps to translated points with the same denominator, and are
answered alike there, then the whole of the one solve is the translation of the other. The
arithmetic is arbitrary.
-/

namespace LeastSquares

variable {α : Type} {m m' n : Nat}

/-- How the points and the residuals of one solve are read in another. -/
structure Translation (α : Type) (n : Nat) where
  point : Vector α n → Vector α n
  residuals : List α → List α

/-- Both iterates of a state replaced. The damping stays. -/
def State.map (f : Iterate α m n → Iterate α m' n) (s : State α m n) : State α m' n :=
  ⟨f s.current, f s.previous, s.damping⟩

namespace Translation

variable (t : Translation α n) (f : Iterate α m n → Iterate α m' n)

def call (c : Call α n) : Call α n := { c with point := t.point c.point }

def solution (s : Solution α n) : Solution α n :=
  { s with point := t.point s.point, residuals := t.residuals s.residuals }

def attempt (a : Attempt α m n) : Attempt α m' n :=
  ⟨t.point a.trial, a.denominator, a.ratio, a.next.map f⟩

def ending : Ending α n → Ending α n
  | .stopped reason => .stopped reason
  | .singular => .singular
  | .refused trial fault => .refused (t.point trial) fault

/-- What becomes of an attempt, whether it is carried through or not. -/
def result : Except (Ending α n) (Attempt α m n) → Except (Ending α n) (Attempt α m' n)
  | .error ending => .error (t.ending ending)
  | .ok a => .ok (t.attempt f a)

def trail (r : Trail α m n) : Trail α m' n :=
  ⟨r.attempts.map (t.attempt f), t.ending r.ending⟩

/-- Iterates are replaced by ones that the translation reads them as, at the same cost. -/
structure Carries (t : Translation α n) (f : Iterate α m n → Iterate α m' n) : Prop where
  point_eq : ∀ it, (f it).point = t.point it.point
  residuals_eq : ∀ it, (f it).residuals.toList = t.residuals it.residuals.toList
  cost_eq : ∀ it, (f it).cost = it.cost

/-- One course is the translation of another. -/
inductive Translates (t : Translation α n) : Course α n → Course α n → Prop
  | invalid (fault : Fault α) : Translates t (.invalid fault) (.invalid fault)
  | unusable (start : Vector α n) (fault : Fault α) :
      Translates t (.unusable start fault) (.unusable (t.point start) fault)
  | stationary {m m' : Nat} {f : Iterate α m n → Iterate α m' n} (hf : t.Carries f)
      (it : Iterate α m n) : Translates t (.stationary m it) (.stationary m' (f it))
  | iterated {m m' : Nat} {f : Iterate α m n → Iterate α m' n} (hf : t.Carries f)
      (start : State α m n) (r : Trail α m n) :
      Translates t (.iterated m start r) (.iterated m' (start.map f) (t.trail f r))

section Views

theorem trials_trail (r : Trail α m n) : (t.trail f r).trials = r.trials.map t.point := by
  obtain ⟨attempts, ending⟩ := r
  cases ending with
  | stopped reason => simp [trail, Trail.trials, Translation.ending, attempt]
  | singular => simp [trail, Trail.trials, Translation.ending, attempt]
  | refused trial fault => simp [trail, Trail.trials, Translation.ending, attempt]

theorem last_trail (r : Trail α m n) (start : State α m n) :
    (t.trail f r).last (start.map f) = (r.last start).map f := by
  rw [Trail.last, Trail.last, trail, List.getLast?_map]
  cases r.attempts.getLast? with
  | none => rfl
  | some a => rfl

variable {t f}

theorem Carries.record_attempt [Scalar α] (hf : t.Carries f) (a : Attempt α m n) (i : Nat) :
    (t.attempt f a).record i = a.record i := by
  rw [Attempt.record, Attempt.record, attempt, State.map, hf.cost_eq]
  rfl

theorem Carries.records_trail [Scalar α] (hf : t.Carries f) (r : Trail α m n) :
    (t.trail f r).records = r.records := by
  apply List.ext_getElem?
  intro k
  rw [Trail.getElem?_records, Trail.getElem?_records, trail, List.getElem?_map, Option.map_map]
  exact congrArg (r.attempts[k]?.map ·) (funext fun a => hf.record_attempt a (k + 1))

theorem Carries.solutionAt [Scalar α] (hf : t.Carries f) (it : Iterate α m n)
    (iterations evaluations : Nat) (reason : StopReason) (trace : Option (List (Record α))) :
    Course.solutionAt (f it) iterations evaluations reason trace =
      t.solution (Course.solutionAt it iterations evaluations reason trace) := by
  simp [Course.solutionAt, solution, hf.point_eq, hf.residuals_eq, hf.cost_eq]

end Views

namespace Translates

variable {t} {course course' : Course α n}

theorem calls (h : t.Translates course course') : course'.calls = course.calls.map t.call := by
  cases h with
  | invalid => rfl
  | unusable => rfl
  | stationary hf it => simp [Course.calls, call, hf.point_eq]
  | iterated hf start r =>
      simp [Course.calls, call, State.map, hf.point_eq, trials_trail]

theorem dampings (h : t.Translates course course') : course'.dampings = course.dampings := by
  cases h with
  | invalid => rfl
  | unusable => rfl
  | stationary => rfl
  | iterated hf start r =>
      simp [Course.dampings, Trail.states, trail, attempt, State.map]

variable [Scalar α]

theorem records (h : t.Translates course course') : course'.records = course.records := by
  cases h with
  | invalid => rfl
  | unusable => rfl
  | stationary => rfl
  | iterated hf start r => exact hf.records_trail r

/-- The translated solve fails for the same fault, or has the translated solution. -/
theorem outcome (h : t.Translates course course') (recordTrace : Bool) :
    course'.outcome recordTrace = (course.outcome recordTrace).map t.solution := by
  have hlength : course'.calls.length = course.calls.length := by
    rw [h.calls, List.length_map]
  cases h with
  | invalid => rfl
  | unusable => rfl
  | stationary hf it => exact congrArg Except.ok (hf.solutionAt it _ _ _ _)
  | @iterated m m' f hf start r =>
      cases hending : r.ending with
      | stopped reason =>
          have hending' : (t.trail f r).ending = .stopped reason := congrArg t.ending hending
          rw [Course.outcome_of_stopped hending, Course.outcome_of_stopped hending', hlength,
            last_trail, hf.records_trail, trail, List.length_map]
          exact congrArg Except.ok (hf.solutionAt _ _ _ _ _)
      | singular =>
          have hending' : (t.trail f r).ending = .singular := congrArg t.ending hending
          rw [Course.outcome_of_singular hending, Course.outcome_of_singular hending']
          rfl
      | refused trial fault =>
          have hending' : (t.trail f r).ending = .refused (t.point trial) fault :=
            congrArg t.ending hending
          rw [Course.outcome_of_refused hending, Course.outcome_of_refused hending']
          rfl

end Translates

/-- Answers at a point and at its translation that a solve makes the same of: the same fault, a wrong
number of residuals that is reported alike, or residuals of the same cost, without a usable Jacobian
or with one that gives the translated iterate. -/
inductive AnswersAlike [Scalar α] (t : Translation α n) (f : Iterate α m n → Iterate α m' n)
    (p : Vector α n) :
    Except (Fault α) (Evaluation α) → Except (Fault α) (Evaluation α) → Prop
  | fault (fault : Fault α) : AnswersAlike t f p (.error fault) (.error fault)
  | count {e e' : Evaluation α} (hsize : e.residuals.size ≠ m) (hsize' : e'.residuals.size ≠ m')
      (hcount : ∀ i, Fault.residualCount (α := α) m' e'.residuals.size i =
        .residualCount m e.residuals.size i) :
      AnswersAlike t f p (.ok e) (.ok e')
  | lacking {e e' : Evaluation α} {fault : Fault α} (hsize : e.residuals.size = m)
      (hsize' : e'.residuals.size = m') (hcost : e'.cost = e.cost)
      (hjacobian : e.jacobianOf m n = .error fault)
      (hjacobian' : e'.jacobianOf m' n = .error fault) : AnswersAlike t f p (.ok e) (.ok e')
  | iterate {e e' : Evaluation α} {jacobian : Mat α m n} {jacobian' : Mat α m' n}
      (hsize : e.residuals.size = m) (hsize' : e'.residuals.size = m') (hcost : e'.cost = e.cost)
      (hjacobian : e.jacobianOf m n = .ok jacobian)
      (hjacobian' : e'.jacobianOf m' n = .ok jacobian')
      (hiterate : Iterate.of (t.point p) ⟨e'.residuals, hsize'⟩ jacobian' =
        f (.of p ⟨e.residuals, hsize⟩ jacobian)) : AnswersAlike t f p (.ok e) (.ok e')

namespace AnswersAlike

variable [Scalar α] {t f} {p : Vector α n} {answer : Except (Fault α) (Evaluation α)}

theorem eq_error {fault : Fault α} (h : t.AnswersAlike f p (.error fault) answer) :
    answer = .error fault := by
  cases h
  rfl

theorem exists_eq_ok {e : Evaluation α} (h : t.AnswersAlike f p (.ok e) answer) :
    ∃ e', answer = .ok e' := by
  cases h with
  | count => exact ⟨_, rfl⟩
  | lacking => exact ⟨_, rfl⟩
  | iterate => exact ⟨_, rfl⟩

end AnswersAlike

/-- What it takes for one solve to go on as the translation of another, as long as the iterates have
the property `good` that every evaluation gives them. -/
structure Simulates [Scalar α] (t : Translation α n) (f : Iterate α m n → Iterate α m' n)
    (good : Iterate α m n → Prop) (c c' : Setting α n) : Prop where
  carries : t.Carries f
  good_of : ∀ (p : Vector α n) (residuals : Vector α m) (jacobian : Mat α m n),
    good (.of p residuals jacobian)
  step_none : ∀ s : State α m n, good s.current → s.step? c.style = none →
    (s.map f).step? c'.style = none
  step_some : ∀ (s : State α m n) (step : Step α n), good s.current →
    s.step? c.style = some step → ∃ step', (s.map f).step? c'.style = some step' ∧
      step'.denominator = step.denominator ∧
      c'.box.clip (plus (f s.current).point step'.move) =
        t.point (c.box.clip (plus s.current.point step.move))
  answers : ∀ (i : Nat) (p : Vector α n),
    t.AnswersAlike f p (c.problem i p true) (c'.problem i (t.point p) true)
  verdict : ∀ (denominator rho oldCost cost : α) (old new : Vector α n),
    c'.tolerances.verdict denominator rho oldCost cost (t.point old).toList (t.point new).toList =
      c.tolerances.verdict denominator rho oldCost cost old.toList new.toList

namespace Simulates

variable [Scalar α] {t f} {good : Iterate α m n → Prop} {c c' : Setting α n}
  {s : State α m n} {a : Attempt α m n}

theorem verdict_attempt (h : t.Simulates f good c c') (a : Attempt α m n) :
    (t.attempt f a).verdict c'.tolerances = a.verdict c.tolerances := by
  unfold Attempt.verdict attempt State.map
  dsimp only
  rw [h.carries.cost_eq, h.carries.cost_eq, h.carries.point_eq, h.carries.point_eq, h.verdict]

theorem good_next (h : t.Simulates f good c c') {i : Nat} (hs : good s.current)
    (ha : c.attempt i s = .ok a) : good a.next.current := by
  obtain ⟨step, e, hmade⟩ := Setting.made_of_attempt ha
  rcases hmade.decision with ⟨_, jacobian, _, hnext⟩ | ⟨_, hnext⟩
  · rw [hnext]
    exact h.good_of _ _ _
  · rw [hnext]
    exact hs

/-- Answers that are alike lead to the same decision. -/
theorem judge_eq (h : t.Simulates f good c c') {step step' : Step α n}
    (hdenominator : step'.denominator = step.denominator) {p : Vector α n} {e e' : Evaluation α}
    (halike : t.AnswersAlike f p (.ok e) (.ok e')) (i : Nat) :
    Setting.judge (s.map f) step' (t.point p) e' i =
      (Setting.judge s step p e i).map (t.attempt f) := by
  unfold Setting.judge
  rw [hdenominator]
  cases halike with
  | count hsize hsize' hcount =>
      rw [dif_neg hsize, dif_neg hsize', hcount]
      rfl
  | lacking hsize hsize' hcost hjacobian hjacobian' =>
      rw [dif_pos hsize, dif_pos hsize', hcost, hjacobian, hjacobian']
      dsimp only [State.map]
      rw [h.carries.cost_eq]
      split
      · rfl
      · rfl
  | iterate hsize hsize' hcost hjacobian hjacobian' hiterate =>
      rw [dif_pos hsize, dif_pos hsize', hcost, hjacobian, hjacobian']
      dsimp only [State.map]
      rw [h.carries.cost_eq, hiterate]
      split
      · rfl
      · rfl

/-- An attempt from a translated state is the translated attempt. -/
theorem attempt_eq (h : t.Simulates f good c c') (i : Nat) (hs : good s.current) :
    c'.attempt i (s.map f) = t.result f (c.attempt i s) := by
  unfold Setting.attempt
  cases hstep : s.step? c.style with
  | none =>
      rw [h.step_none s hs hstep]
      rfl
  | some step =>
      obtain ⟨step', hstep', hdenominator, htrial⟩ := h.step_some s step hs hstep
      have htrial' : c'.box.clip (plus (s.map f).current.point step'.move) =
          t.point (c.box.clip (plus s.current.point step.move)) := htrial
      have halike := h.answers i (c.box.clip (plus s.current.point step.move))
      rw [hstep']
      dsimp only
      rw [htrial']
      cases hanswer : c.problem i (c.box.clip (plus s.current.point step.move)) true with
      | error fault =>
          rw [hanswer] at halike
          rw [halike.eq_error]
          rfl
      | ok e =>
          rw [hanswer] at halike
          obtain ⟨e', hanswer'⟩ := halike.exists_eq_ok
          rw [hanswer'] at halike
          rw [hanswer']
          dsimp only
          rw [h.judge_eq hdenominator halike]
          cases Setting.judge s step (c.box.clip (plus s.current.point step.move)) e i with
          | error fault => rfl
          | ok a => rfl

/-- A solve from a translated state is the translated solve. -/
theorem iterate_eq (h : t.Simulates f good c c') (remaining i : Nat) (hs : good s.current) :
    c'.iterate remaining i (s.map f) = t.trail f (c.iterate remaining i s) := by
  induction remaining generalizing i s with
  | zero => rfl
  | succ remaining ih =>
      have hattempt := h.attempt_eq i hs
      cases ha : c.attempt i s with
      | error ending =>
          rw [ha] at hattempt
          rw [Setting.iterate_of_error ha, Setting.iterate_of_error hattempt]
          rfl
      | ok a =>
          rw [ha] at hattempt
          have hverdict' := h.verdict_attempt a
          cases hverdict : a.verdict c.tolerances with
          | stopped reason =>
              rw [Setting.iterate_of_stopped ha hverdict,
                Setting.iterate_of_stopped hattempt (hverdict'.trans hverdict)]
              rfl
          | running =>
              rw [Setting.iterate_of_running ha hverdict,
                Setting.iterate_of_running hattempt (hverdict'.trans hverdict)]
              have hrest : c'.iterate remaining (i + 1) (t.attempt f a).next =
                  t.trail f (c.iterate remaining (i + 1) a.next) :=
                ih (i + 1) (h.good_next hs ha)
              rw [hrest]
              rfl

end Simulates

/-- If the start is answered with as many residuals as the translation is about, and the damping to
start with is not affected by it, then one solve is the translation of the other. -/
theorem Simulates.translates [Scalar α] {t : Translation α n}
    {f : Iterate α m n → Iterate α m' n} {good : Iterate α m n → Prop} {config config' : Config α}
    {problem problem' : Problem α n} {x : Vector α n} {box box' : Box α n} {e : Evaluation α}
    (h : t.Simulates f good (config.setting problem box) (config'.setting problem' box'))
    (hvalid : config.validate n = .ok box) (hvalid' : config'.validate n = .ok box')
    (hcap : config'.maxIterations = config.maxIterations)
    (hdamping : ∀ it : Iterate α m n,
      Damping.start? config'.tau (f it).gram.diagonal.toList =
        Damping.start? config.tau it.gram.diagonal.toList)
    (hanswer : problem 0 x true = .ok e) (hsize : e.residuals.size = m) :
    t.Translates (minimize config problem x) (minimize config' problem' (t.point x)) := by
  have halike : t.AnswersAlike f x (problem 0 x true) (problem' 0 (t.point x) true) :=
    h.answers 0 x
  rw [hanswer] at halike
  obtain ⟨e', hanswer'⟩ := halike.exists_eq_ok
  rw [hanswer'] at halike
  cases halike with
  | count hcount => exact absurd hsize hcount
  | lacking _ hsize' _ hjacobian hjacobian' =>
      subst hsize hsize'
      rw [minimize_eq_unusable_iff.mpr ⟨rfl, box, hvalid, Or.inr ⟨e, hanswer,
          (e.jacobianOf_eq_error_iff _).mp hjacobian⟩⟩,
        minimize_eq_unusable_iff.mpr ⟨rfl, box', hvalid', Or.inr ⟨e', hanswer',
          (e'.jacobianOf_eq_error_iff _).mp hjacobian'⟩⟩]
      exact .unusable x _
  | @iterate _ _ jacobian jacobian' _ hsize' _ hjacobian hjacobian' hiterate =>
      have hstart' := hdamping (.of x ⟨e.residuals, hsize⟩ jacobian)
      rw [← hiterate] at hstart'
      cases hstart : Damping.start? config.tau jacobian.gram.diagonal.toList with
      | none =>
          subst hsize hsize'
          rw [minimize_eq_stationary hvalid hanswer hjacobian hstart,
            minimize_eq_stationary hvalid' hanswer' hjacobian' (hstart'.trans hstart)]
          have hreached : Iterate.of (t.point x) e'.vector jacobian' =
              f (.of x e.vector jacobian) := hiterate
          rw [hreached]
          exact .stationary h.carries _
      | some damping =>
          rw [minimize_eq_iterated hvalid hanswer hsize hjacobian hstart,
            minimize_eq_iterated hvalid' hanswer' hsize' hjacobian' (hstart'.trans hstart),
            hiterate, hcap]
          let s : State α m n := .begin (.of x ⟨e.residuals, hsize⟩ jacobian) damping
          have hgood : good s.current := h.good_of _ _ _
          have htranslates := Translates.iterated h.carries s
            ((config.setting problem box).iterate config.maxIterations 1 s)
          rwa [← h.iterate_eq config.maxIterations 1 hgood] at htranslates

end Translation

end LeastSquares
