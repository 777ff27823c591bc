import Mathlib
import LeastSquares.Proofs.Alignment

/-! # Solves that stop earlier

A lower cap and looser tolerances change nothing about an attempt. All that they can do is to end a
solve after an attempt that it would have gone on from, so the solve is then a beginning of what it
would have been, and whatever it shows is a beginning of what it would have shown. The arithmetic is
arbitrary.
-/

namespace LeastSquares

variable {α : Type} {m n : Nat}

/-- A trail begins another one: it stops after some of its attempts, or it is all of it. -/
structure Trail.Begins (part whole : Trail α m n) : Prop where
  attempts : part.attempts <+: whole.attempts
  ending : (∃ reason, part.ending = .stopped reason) ∨ part = whole

namespace Trail.Begins

variable {part whole : Trail α m n}

theorem refl (t : Trail α m n) : t.Begins t := ⟨List.prefix_rfl, Or.inr rfl⟩

theorem of_stopped_nil {reason : StopReason} (whole : Trail α m n) :
    Trail.Begins ⟨[], .stopped reason⟩ whole :=
  ⟨List.nil_prefix, Or.inl ⟨reason, rfl⟩⟩

/-- What begins with the same attempt begins as the rest does. -/
theorem cons (hpart : part.Begins whole) (a : Attempt α m n) :
    Trail.Begins ⟨a :: part.attempts, part.ending⟩ ⟨a :: whole.attempts, whole.ending⟩ := by
  refine ⟨(List.prefix_cons_inj a).mpr hpart.attempts, ?_⟩
  rcases hpart.ending with hstopped | rfl
  · exact Or.inl hstopped
  · exact Or.inr rfl

theorem attempts_getElem? (hpart : part.Begins whole) {k : Nat} (hk : k < part.attempts.length) :
    whole.attempts[k]? = part.attempts[k]? := by
  rw [List.prefix_iff_getElem?.mp hpart.attempts k hk, List.getElem?_eq_getElem hk]

theorem trials (hpart : part.Begins whole) : part.trials <+: whole.trials := by
  rcases hpart.ending with ⟨reason, hending⟩ | rfl
  · rw [Trail.trials, Trail.trials, hending, List.append_nil]
    exact List.prefix_append_of_prefix (hpart.attempts.map _)
  · exact List.prefix_rfl

theorem states (hpart : part.Begins whole) (start : State α m n) :
    part.states start <+: whole.states start :=
  (List.prefix_cons_inj start).mpr (hpart.attempts.map _)

theorem records [Scalar α] (hpart : part.Begins whole) : part.records <+: whole.records := by
  obtain ⟨rest, hrest⟩ := hpart.attempts
  rw [Trail.records, Trail.records, Attempt.records, Attempt.records, ← hrest, List.zipIdx_append,
    List.map_append]
  exact List.prefix_append _ _

/-- Trails with the same attempts that end alike are the same. -/
theorem eq_of_length (hpart : part.Begins whole)
    (hlength : part.attempts.length = whole.attempts.length)
    (hending : part.ending = whole.ending) :
    part = whole := by
  obtain ⟨attempts, ending⟩ := part
  obtain ⟨attempts', ending'⟩ := whole
  obtain rfl := hpart.attempts.eq_of_length hlength
  cases hending
  rfl

end Trail.Begins

namespace Course

/-- The states of the damping, that before the first attempt included. -/
def dampings : Course α n → List (Damping α)
  | .iterated _ start trail => (trail.states start).map State.damping
  | _ => []

/-- A course begins another one: they come to the same first state, and the trail from there begins
the other one's, or they are the same. -/
inductive Begins : Course α n → Course α n → Prop
  | same (c : Course α n) : Begins c c
  | iterated {m : Nat} {part whole : Trail α m n} (start : State α m n)
      (htrail : part.Begins whole) : Begins (.iterated m start part) (.iterated m start whole)

variable [Scalar α]

/-- The records of the attempts that were carried through, whether the solve failed or not. -/
def records : Course α n → List (Record α)
  | .iterated _ _ trail => trail.records
  | _ => []

/-- A solution's trace consists of the records. -/
theorem trace_eq_records {course : Course α n} {recordTrace : Bool} {solution : Solution α n}
    (houtcome : course.outcome recordTrace = .ok solution) :
    solution.trace = if recordTrace then some course.records else none := by
  rcases solution_cases houtcome with ⟨m, it, rfl, rfl⟩ | ⟨m, start, trail, _, rfl, _, rfl⟩
  · rfl
  · rfl

/-- Whatever a course shows is the beginning of what another one shows: its calls, the records of
its attempts, and so the trace if both have one, its table at every level, and its damping. -/
structure PrefixOf [NumberText α] (part whole : Course α n) : Prop where
  calls : part.calls <+: whole.calls
  records : part.records <+: whole.records
  trace : ∀ s s', part.outcome true = .ok s → whole.outcome true = .ok s' →
    ∃ r r', s.trace = some r ∧ s'.trace = some r' ∧ r <+: r'
  rows : ∀ level, Display.table level part <+: Display.table level whole
  dampings : part.dampings <+: whole.dampings

namespace Begins

variable {part whole : Course α n}

omit [Scalar α] in
theorem eq_or_iterated (hpart : part.Begins whole) :
    part = whole ∨ ∃ (m : Nat) (start : State α m n) (trail trail' : Trail α m n),
      part = .iterated m start trail ∧ whole = .iterated m start trail' ∧ trail.Begins trail' := by
  cases hpart with
  | same => exact Or.inl rfl
  | iterated start htrail => exact Or.inr ⟨_, start, _, _, rfl, rfl, htrail⟩

omit [Scalar α] in
theorem calls (hpart : part.Begins whole) : part.calls <+: whole.calls := by
  cases hpart with
  | same => exact List.prefix_rfl
  | iterated start htrail => exact ((List.prefix_cons_inj _).mpr htrail.trials).map _

theorem records (hpart : part.Begins whole) : part.records <+: whole.records := by
  cases hpart with
  | same => exact List.prefix_rfl
  | iterated start htrail => exact htrail.records

omit [Scalar α] in
theorem dampings (hpart : part.Begins whole) : part.dampings <+: whole.dampings := by
  cases hpart with
  | same => exact List.prefix_rfl
  | iterated start htrail => exact (htrail.states start).map _

theorem table [NumberText α] (hpart : part.Begins whole) (level : DisplayLevel) :
    Display.table level part <+: Display.table level whole := by
  cases hpart with
  | same => exact List.prefix_rfl
  | iterated start htrail =>
      unfold Display.table Display.progress Display.rows
      dsimp only
      rw [List.prefix_append_right_inj]
      split
      · exact htrail.records.map _
      · exact List.prefix_rfl

theorem prefixOf [NumberText α] (hpart : part.Begins whole) : part.PrefixOf whole where
  calls := hpart.calls
  records := hpart.records
  trace _ _ houtcome houtcome' :=
    ⟨_, _, trace_eq_records houtcome, trace_eq_records houtcome', hpart.records⟩
  rows := hpart.table
  dampings := hpart.dampings

/-- A solve that does not stop has nothing left out of it. -/
theorem outcome_of_error (hpart : part.Begins whole) {recordTrace : Bool} {fault : Fault α}
    (houtcome : part.outcome recordTrace = .error fault) : part = whole := by
  cases hpart with
  | same => rfl
  | iterated start htrail =>
      rcases htrail.ending with ⟨reason, hending⟩ | rfl
      · rw [outcome_of_stopped hending] at houtcome
        cases houtcome
      · rfl

end Begins

end Course

variable [Scalar α]

/-- Other tolerances under which an attempt ends the solve whenever it does so under `strict`. -/
def Tolerances.Looser (loose strict : Tolerances α) : Prop :=
  ∀ (denominator rho oldCost cost : α) (oldPoint point : List α) (reason : StopReason),
    strict.verdict denominator rho oldCost cost oldPoint point = .stopped reason →
      ∃ other, loose.verdict denominator rho oldCost cost oldPoint point = .stopped other

theorem Tolerances.Looser.refl (t : Tolerances α) : t.Looser t :=
  fun _ _ _ _ _ _ reason hverdict => ⟨reason, hverdict⟩

/-- With a lower cap and looser tolerances, the attempts are those at the beginning. -/
theorem Setting.iterate_begins (c : Setting α n) {loose : Tolerances α}
    (hloose : loose.Looser c.tolerances) {cap cap' : Nat} (hcap : cap ≤ cap') (i : Nat)
    (s : State α m n) :
    (({ c with tolerances := loose } : Setting α n).iterate cap i s).Begins
      (c.iterate cap' i s) := by
  induction cap generalizing cap' i s with
  | zero => exact .of_stopped_nil _
  | succ cap ih =>
      obtain ⟨cap', rfl⟩ : ∃ k, cap' = k + 1 := ⟨cap' - 1, by omega⟩
      let c' : Setting α n := { c with tolerances := loose }
      have hsame : c'.attempt i s = c.attempt i s := rfl
      cases ha : c.attempt i s with
      | error ending =>
          rw [iterate_of_error ha, iterate_of_error (hsame.trans ha)]
          exact .refl _
      | ok a =>
          cases hverdict : a.verdict c.tolerances with
          | stopped reason =>
              obtain ⟨other, hother⟩ := hloose _ _ _ _ _ _ reason hverdict
              rw [iterate_of_stopped ha hverdict, iterate_of_stopped (hsame.trans ha) hother]
              exact ⟨List.prefix_rfl, Or.inl ⟨other, rfl⟩⟩
          | running =>
              rw [iterate_of_running ha hverdict]
              cases hother : a.verdict loose with
              | stopped other =>
                  rw [iterate_of_stopped (hsame.trans ha) hother]
                  exact (Trail.Begins.of_stopped_nil _).cons a
              | running =>
                  rw [iterate_of_running (hsame.trans ha) hother]
                  exact (ih (Nat.le_of_succ_le_succ hcap) (i + 1) a.next).cons a

/-- A solve with a lower cap and looser tolerances, and no other differences, begins the other. -/
theorem minimize_begins (config config' : Config α) (problem : Problem α n) (x : Vector α n)
    {box : Box α n} (hvalid : config.validate n = .ok box)
    (hvalid' : config'.validate n = .ok box) (htau : config'.tau = config.tau)
    (hstyle : config'.damping = config.damping)
    (hcap : config'.maxIterations ≤ config.maxIterations)
    (hloose : (config'.setting problem box).tolerances.Looser
      (config.setting problem box).tolerances) :
    (minimize config' problem x).Begins (minimize config problem x) := by
  rcases minimize_aligned hvalid hvalid' htau rfl with hsame | ⟨m, start, hwhole, hpart⟩
  · rw [hsame]
    exact .same _
  · have hsetting : config'.setting problem box =
        { config.setting problem box with
          tolerances := (config'.setting problem box).tolerances } := by
      rw [Config.setting, hstyle]
      rfl
    rw [hwhole, hpart, hsetting]
    exact .iterated start ((config.setting problem box).iterate_begins hloose hcap 1 start)

end LeastSquares
