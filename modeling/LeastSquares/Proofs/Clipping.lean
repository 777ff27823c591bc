import Mathlib
import LeastSquares.Proofs.Coherence
import LeastSquares.Proofs.Comparison
import LeastSquares.Proofs.Failure
import LeastSquares.Proofs.Validation

/-! # Clipping

A clipped point keeps to its limits wherever it is a number. That the lower limits are applied last
does no harm, since the bounds of a solve were validated, so none of them is above its upper one. A
solve evaluates the start as it is and clipped points only, and it ends at one of these.
-/

namespace LeastSquares

variable {α : Type} {m n : Nat}

open Scalar

variable [Scalar α]

/-- A component keeps to a lower and an upper limit. What is not a number keeps to any limits, and a
limit that is not a number is kept to by anything. -/
structure Within (lo hi : Option α) (x : α) : Prop where
  le_upper : ∀ limit, hi = some limit → isNaN limit = false → isNaN x = false → x ≤ limit
  lower_le : ∀ limit, lo = some limit → isNaN limit = false → isNaN x = false → limit ≤ x

/-- Every component of a point keeps to the limits that were given for it. -/
def Bounds.Holds (b : Bounds α) (x : Vector α n) : Prop :=
  ∀ i : Fin n, Within b.lower[i.val]?.join b.upper[i.val]?.join (x.get i)

namespace Box

/-- No lower limit is above the upper limit of the same component. -/
def Uncrossed (box : Box α n) : Prop :=
  ∀ i lo hi, box.lower.at i = some lo → box.upper.at i = some hi → ¬hi < lo

/-- The fault of a lower limit that exceeds an upper one. -/
def crossed? (lo hi : Option α) (i : Nat) : Option (Fault α) :=
  match lo, hi with
  | some lo, some hi => if hi < lo then some (.crossedLimits lo hi i) else none
  | _, _ => none

theorem crossed?_eq_some {lo hi : Option α} {i : Nat} {fault : Fault α}
    (hfault : crossed? lo hi i = some fault) :
    ∃ l h, lo = some l ∧ hi = some h ∧ h < l ∧ fault = .crossedLimits l h i := by
  unfold crossed? at hfault
  split at hfault
  next l h =>
    split at hfault
    next hlt => exact ⟨l, h, rfl, rfl, hlt, (Option.some.inj hfault).symm⟩
    · cases hfault
  · cases hfault

theorem crossed?_eq_none_iff {lo hi : Option α} {i : Nat} :
    crossed? lo hi i = none ↔ ∀ l h, lo = some l → hi = some h → ¬h < l := by
  cases lo with
  | none => simp [crossed?]
  | some l =>
      cases hi with
      | none => simp [crossed?]
      | some h => simp [crossed?]

theorem crossing?_eq_findSome? (lower upper : Vector (Option α) n) :
    (⟨some lower, some upper⟩ : Box α n).crossing? =
      (List.finRange n).findSome? fun i => crossed? (lower.get i) (upper.get i) i :=
  rfl

theorem crossing?_eq_none_iff (box : Box α n) : box.crossing? = none ↔ box.Uncrossed := by
  obtain ⟨_ | lower, _ | upper⟩ := box
  · simp [crossing?, Uncrossed, Limits.at]
  · simp [crossing?, Uncrossed, Limits.at]
  · simp [crossing?, Uncrossed, Limits.at]
  · rw [crossing?_eq_findSome?, List.findSome?_eq_none_iff]
    constructor
    · intro hnone i
      exact crossed?_eq_none_iff.mp (hnone i (List.mem_finRange i))
    · intro huncrossed i _
      exact crossed?_eq_none_iff.mpr (huncrossed i)

/-! ### One component -/

theorem get_clip (box : Box α n) (x : Vector α n) (i : Fin n) :
    (box.clip x).get i = raised (box.lower.at i) (lowered (box.upper.at i) (x.get i)) :=
  get_ofFn ..

/-- A component stays, or it goes to the upper limit that it is above. -/
theorem lowered_cases (hi : Option α) (x : α) :
    (lowered hi x = x ∧ ∀ h, hi = some h → ¬h < x) ∨
      ∃ h, hi = some h ∧ h < x ∧ lowered hi x = h := by
  cases hi with
  | none => exact Or.inl ⟨rfl, nofun⟩
  | some h =>
      by_cases hlt : h < x
      · exact Or.inr ⟨h, rfl, hlt, if_pos hlt⟩
      · refine Or.inl ⟨if_neg hlt, ?_⟩
        rintro _ ⟨⟩
        exact hlt

/-- A component stays, or it goes to the lower limit that it is below. -/
theorem raised_cases (lo : Option α) (x : α) :
    (raised lo x = x ∧ ∀ l, lo = some l → ¬x < l) ∨
      ∃ l, lo = some l ∧ x < l ∧ raised lo x = l := by
  cases lo with
  | none => exact Or.inl ⟨rfl, nofun⟩
  | some l =>
      by_cases hlt : x < l
      · exact Or.inr ⟨l, rfl, hlt, if_pos hlt⟩
      · refine Or.inl ⟨if_neg hlt, ?_⟩
        rintro _ ⟨⟩
        exact hlt

variable [LawfulOrder α]

/-- Clipping neither makes a number of what is none nor the other way round. -/
theorem isNaN_lowered (hi : Option α) (x : α) : isNaN (lowered hi x) = isNaN x := by
  rcases lowered_cases hi x with ⟨hstays, _⟩ | ⟨h, _, habove, hgoes⟩
  · rw [hstays]
  · obtain ⟨hnumber, hx⟩ := isNaN_eq_false_of_le (le_of_lt habove)
    rw [hgoes, hnumber, hx]

theorem isNaN_raised (lo : Option α) (x : α) : isNaN (raised lo x) = isNaN x := by
  rcases raised_cases lo x with ⟨hstays, _⟩ | ⟨l, _, hbelow, hgoes⟩
  · rw [hstays]
  · obtain ⟨hx, hnumber⟩ := isNaN_eq_false_of_le (le_of_lt hbelow)
    rw [hgoes, hnumber, hx]

theorem lowered_le {hi x : α} (hhi : isNaN hi = false) (hx : isNaN x = false) :
    lowered (some hi) x ≤ hi := by
  rcases lowered_cases (some hi) x with ⟨hstays, hbelow⟩ | ⟨_, ⟨⟩, _, hgoes⟩
  · rw [hstays]
    exact le_of_not_lt hhi hx (hbelow hi rfl)
  · rw [hgoes]
    exact isNaN_eq_false_iff.mp hhi

theorem le_raised {lo x : α} (hlo : isNaN lo = false) (hx : isNaN x = false) :
    lo ≤ raised (some lo) x := by
  rcases raised_cases (some lo) x with ⟨hstays, habove⟩ | ⟨_, ⟨⟩, _, hgoes⟩
  · rw [hstays]
    exact le_of_not_lt hx hlo (habove lo rfl)
  · rw [hgoes]
    exact isNaN_eq_false_iff.mp hlo

/-- Raising a component does not take it past an upper limit that the lower one keeps below. -/
theorem raised_le {lo : Option α} {hi x : α} (hle : x ≤ hi)
    (hlo : ∀ limit, lo = some limit → ¬hi < limit) : raised lo x ≤ hi := by
  rcases raised_cases lo x with ⟨hstays, _⟩ | ⟨l, hlimit, hbelow, hgoes⟩
  · rwa [hstays]
  · rw [hgoes]
    have hnumber := (isNaN_eq_false_of_le (le_of_lt hbelow)).2
    exact le_of_not_lt (isNaN_eq_false_of_le hle).2 hnumber (hlo l hlimit)

theorem within_raised_lowered {lo hi : Option α} (x : α)
    (huncrossed : ∀ l h, lo = some l → hi = some h → ¬h < l) :
    Within lo hi (raised lo (lowered hi x)) where
  le_upper limit hlimit hnumber hx := by
    rw [isNaN_raised, isNaN_lowered] at hx
    subst hlimit
    exact raised_le (lowered_le hnumber hx) fun l hl => huncrossed l limit hl rfl
  lower_le limit hlimit hnumber hx := by
    rw [isNaN_raised] at hx
    subst hlimit
    exact le_raised hnumber hx

end Box

namespace Within

variable [LawfulOrder α] {lo hi : Option α} {x : α}

theorem lowered_eq (hx : Within lo hi x) : Box.lowered hi x = x := by
  rcases Box.lowered_cases hi x with ⟨hstays, _⟩ | ⟨h, hlimit, habove, _⟩
  · exact hstays
  · obtain ⟨hhi, hnumber⟩ := isNaN_eq_false_of_le (le_of_lt habove)
    exact absurd (hx.le_upper h hlimit hhi hnumber) (LawfulOrder.lt_iff.mp habove).2

theorem raised_eq (hx : Within lo hi x) : Box.raised lo x = x := by
  rcases Box.raised_cases lo x with ⟨hstays, _⟩ | ⟨l, hlimit, hbelow, _⟩
  · exact hstays
  · obtain ⟨hnumber, hlo⟩ := isNaN_eq_false_of_le (le_of_lt hbelow)
    exact absurd (hx.lower_le l hlimit hlo hnumber) (LawfulOrder.lt_iff.mp hbelow).2

end Within

namespace Bounds

theorem uncrossed_of_validate {b : Bounds α} {box : Box α n} (hbox : b.validate n = .ok box) :
    box.Uncrossed :=
  box.crossing?_eq_none_iff.mp (checked_of_validate hbox).2.2

/-- A point brought into the box of validated bounds keeps to the bounds. -/
theorem holds_clip [LawfulOrder α] {b : Bounds α} {box : Box α n} (hbox : b.validate n = .ok box)
    (x : Vector α n) : b.Holds (box.clip x) := by
  obtain ⟨hlower, hupper, _⟩ := checked_of_validate hbox
  intro i
  rw [Box.get_clip, ← at_of_checkedSide hlower i, ← at_of_checkedSide hupper i]
  exact Box.within_raised_lowered _ (uncrossed_of_validate hbox i)

/-- Exactly the points that keep to the bounds stay where they are. -/
theorem clip_eq_iff [LawfulOrder α] {b : Bounds α} {box : Box α n} (hbox : b.validate n = .ok box)
    (x : Vector α n) : box.clip x = x ↔ b.Holds x := by
  constructor
  · intro hclip
    rw [← hclip]
    exact b.holds_clip hbox x
  · intro hholds
    obtain ⟨hlower, hupper, _⟩ := checked_of_validate hbox
    apply ext_get
    intro i
    rw [Box.get_clip, at_of_checkedSide hlower i, at_of_checkedSide hupper i]
    rw [(hholds i).lowered_eq, (hholds i).raised_eq]

end Bounds

/-- Every point that a run evaluates was brought into the box. -/
theorem Setting.Runs.exists_clip_of_mem_trials {c : Setting α n} {remaining i : Nat}
    {start : State α m n} {t : Trail α m n} (hrun : c.Runs remaining i start t) {p : Vector α n}
    (hp : p ∈ t.trials) : ∃ y, p = c.box.clip y := by
  induction hrun with
  | capped => cases hp
  | @failed _ _ _ ending hfailed =>
      cases ending with
      | stopped reason => cases hp
      | singular => cases hp
      | refused trial fault =>
          obtain ⟨step, _, htrial⟩ := ((attempt_eq_refused_iff ..).mp hfailed).trial_eq
          obtain rfl := List.mem_singleton.mp hp
          exact ⟨_, htrial⟩
  | stopped ha _ =>
      obtain ⟨step, e, hmade⟩ := made_of_attempt ha
      obtain rfl := List.mem_singleton.mp hp
      exact ⟨_, hmade.trial_eq⟩
  | running ha _ _ ih =>
      obtain ⟨step, e, hmade⟩ := made_of_attempt ha
      rcases List.mem_cons.mp hp with rfl | hrest
      · exact ⟨_, hmade.trial_eq⟩
      · exact ih hrest

section Solve

variable {config : Config α} {problem : Problem α n} {x : Vector α n} {box : Box α n}

/-- The start is evaluated as it is. -/
theorem calls_zero_of_validate (hvalid : config.validate n = .ok box) :
    (minimize config problem x).calls[0]? = some ⟨true, x⟩ := by
  cases hcourse : minimize config problem x with
  | invalid fault =>
      rw [minimize_eq_invalid_iff, hvalid] at hcourse
      cases hcourse
  | unusable p fault =>
      obtain ⟨rfl, _⟩ := minimize_eq_unusable_iff.mp hcourse
      rfl
  | stationary m it =>
      obtain ⟨rfl, _⟩ := answers_of_stationary hcourse
      rfl
  | iterated m start trail =>
      obtain ⟨_, _, _, hlaunch, _⟩ := exists_launch hcourse
      rw [Course.calls_zero, hlaunch.point_eq]

/-- All other calls are made at clipped points. -/
theorem exists_clip_of_calls_succ (hvalid : config.validate n = .ok box) {k : Nat}
    {call : Call α n} (hcall : (minimize config problem x).calls[k + 1]? = some call) :
    ∃ y, call.point = box.clip y := by
  cases hcourse : minimize config problem x with
  | invalid fault =>
      rw [hcourse] at hcall
      cases hcall
  | unusable p fault =>
      rw [hcourse] at hcall
      cases hcall
  | stationary m it =>
      rw [hcourse] at hcall
      cases hcall
  | iterated m start trail =>
      obtain ⟨box', _, _, hlaunch, hrun⟩ := exists_launch hcourse
      obtain rfl : box = box' := Except.ok.inj (hvalid.symm.trans hlaunch.validate_eq)
      rw [hcourse, Course.calls_succ_eq] at hcall
      obtain ⟨p, hp, rfl⟩ := Option.map_eq_some_iff.mp hcall
      exact hrun.exists_clip_of_mem_trials (List.mem_of_getElem? hp)

/-- A solution is the start, if no step was accepted, and otherwise where the last accepted step
led. -/
theorem solution_point {recordTrace : Bool} {solution : Solution α n}
    (houtcome : (minimize config problem x).outcome recordTrace = .ok solution) :
    ((∀ k : Nat, (minimize config problem x).decisions[k]? ≠ some true) ∧ solution.point = x) ∨
      ∃ k : Nat, (minimize config problem x).decisions[k]? = some true ∧
        (minimize config problem x).calls[k + 1]? = some ⟨true, solution.point⟩ := by
  rcases Course.solution_cases houtcome with
    ⟨m, it, hcourse, rfl⟩ | ⟨m, start, trail, reason, hcourse, _, rfl⟩
  · obtain ⟨rfl, _⟩ := answers_of_stationary hcourse
    rw [hcourse]
    exact Or.inl ⟨fun k => nofun, rfl⟩
  · obtain ⟨_, _, _, hlaunch, _⟩ := exists_launch hcourse
    obtain ⟨j, _, hcoherent⟩ := exists_coherent hcourse (trail.last_eq start)
    have hcall := hcoherent.current.call
    rw [hcourse]
    cases j with
    | zero =>
        rw [Course.calls_zero, hlaunch.point_eq] at hcall
        refine Or.inl ⟨?_, (congrArg Call.point (Option.some.inj hcall)).symm⟩
        intro k hk
        have hlength : k < trail.attempts.length := by
          simpa [Course.decisions] using (List.getElem?_eq_some_iff.mp hk).1
        rw [hcoherent.last.rejected k (Nat.zero_le k) hlength] at hk
        cases hk
    | succ k => exact Or.inr ⟨k, hcoherent.last.accepted k rfl, hcall⟩

end Solve

/-- A solve evaluates its start first, within the bounds or not. Every other point that it evaluates
keeps to the bounds, and so does the solution, unless no step was accepted and it is the start. -/
theorem minimize_keeps_bounds [LawfulOrder α] (config : Config α) (problem : Problem α n)
    (x : Vector α n) {box : Box α n} (hvalid : config.validate n = .ok box) :
    (minimize config problem x).calls[0]? = some ⟨true, x⟩ ∧
    (∀ k call, (minimize config problem x).calls[k + 1]? = some call →
      config.bounds.Holds call.point) ∧
    ∀ recordTrace solution, (minimize config problem x).outcome recordTrace = .ok solution →
      ((∀ k : Nat, (minimize config problem x).decisions[k]? ≠ some true) ∧ solution.point = x) ∨
      ((∃ k : Nat, (minimize config problem x).decisions[k]? = some true ∧
        (minimize config problem x).calls[k + 1]? = some ⟨true, solution.point⟩) ∧
        config.bounds.Holds solution.point) := by
  have hbounds := ((config.validate_eq_ok_iff n box).mp hvalid).2.2.2.2
  have hcalls : ∀ k call, (minimize config problem x).calls[k + 1]? = some call →
      config.bounds.Holds call.point := by
    intro k call hcall
    obtain ⟨y, hy⟩ := exists_clip_of_calls_succ hvalid hcall
    rw [hy]
    exact config.bounds.holds_clip hbounds y
  refine ⟨calls_zero_of_validate hvalid, hcalls, ?_⟩
  intro recordTrace solution houtcome
  rcases solution_point houtcome with hstart | ⟨k, haccepted, hcall⟩
  · exact Or.inl hstart
  · exact Or.inr ⟨⟨k, haccepted, hcall⟩, hcalls k _ hcall⟩

/-- A start below its lower limit is evaluated all the same, and the steps from it keep to their
limits. A limit that is not a number leaves its component free. -/
theorem minimize_keeps_bounds_from_outside :
    let config : Config Float :=
      { Config.standard with
        bounds := ⟨[some 1.0, some (0.0 / 0.0)], [some 2.0, none]⟩, maxIterations := 2 }
    let problem : Problem Float 2 := fun _ x _ =>
      .ok ⟨(minus x #v[4.0, 5.0]).toArray, some (.ofMat (.ofFn ![![1.0, 0.0], ![0.0, 1.0]]))⟩
    let course := minimize config problem #v[0.0, 0.0]
    ¬config.bounds.Holds #v[0.0, 0.0] ∧ course.calls[0]? = some ⟨true, #v[0.0, 0.0]⟩ ∧
      course.calls.length = 3 ∧
      ∀ k call, course.calls[k + 1]? = some call → config.bounds.Holds call.point := by
  intro config problem course
  have hlength : course.calls.length = 3 := by decide +kernel +revert
  have hvalid : config.validate 2 =
      .ok ⟨some #v[some 1.0, some (0.0 / 0.0)], some #v[some 2.0, none]⟩ := by
    rw [config.validate_eq_ok_iff]
    exact ⟨by decide, by decide, by decide, by decide, rfl⟩
  obtain ⟨hstart, hothers, _⟩ := minimize_keeps_bounds config problem #v[0.0, 0.0] hvalid
  refine ⟨?_, hstart, hlength, hothers⟩
  intro hholds
  have hlower := (hholds 0).lower_le 1.0 rfl (by decide) (by decide)
  revert hlower
  decide

end LeastSquares
