import Mathlib
import LeastSquares.Config.Basic
import LeastSquares.Proofs.Exact

/-! # Validation

A configuration fits a number of parameters exactly if there is a parameter at all, the damping
scale and the tolerances are finite and of the right sign, and the bounds fit. The box that is then
solved in is the one of the bounds.
-/

namespace LeastSquares

variable {α : Type} {n : Nat}

/-- No component has a limit, whether there are entries or not. -/
def Bounds.Free (b : Bounds α) : Prop :=
  (∀ limit ∈ b.lower, limit = none) ∧ ∀ limit ∈ b.upper, limit = none

/-- No component has a limit. -/
def Box.Free (box : Box α n) : Prop := ∀ i, box.lower.at i = none ∧ box.upper.at i = none

namespace Bounds

theorem free_unlimited : (unlimited : Bounds α).Free :=
  ⟨List.forall_mem_nil _, List.forall_mem_nil _⟩

/-- The limit of a component is the entry given for it, if there is one. -/
theorem at_of_checkedSide {side : Side} {entries : List (Option α)} {limits : Limits α n}
    (hside : checkedSide side n entries = .ok limits) (i : Fin n) :
    limits.at i = entries[i.val]?.join := by
  unfold checkedSide at hside
  split at hside
  next hempty =>
    cases hside
    rw [List.isEmpty_iff.mp hempty]
    rfl
  · split at hside
    next hsize =>
      cases hside
      have hlength : i.val < entries.length := (i.cast hsize.symm).isLt
      rw [List.getElem?_eq_getElem hlength]
      rfl
    · cases hside

theorem mem_of_checkedSide {side : Side} {entries : List (Option α)} {limits : Limits α n}
    (hside : checkedSide side n entries = .ok limits) {i : Fin n} {limit : α}
    (hlimit : limits.at i = some limit) : some limit ∈ entries := by
  rw [at_of_checkedSide hside] at hlimit
  exact List.mem_of_getElem? (Option.join_eq_some_iff.mp hlimit)

theorem checkedSide_toList (side : Side) (hn : n ≠ 0) (limits : Vector (Option α) n) :
    checkedSide side n limits.toList = .ok (some limits) := by
  obtain ⟨entries, hsize⟩ := limits
  have hentries : ¬(Vector.mk entries hsize).toList.isEmpty = true := by
    rw [List.isEmpty_iff_length_eq_zero, Vector.length_toList]
    exact hn
  have hsize' : (Vector.mk entries hsize).toList.toArray.size = n := hsize
  rw [checkedSide, if_neg hentries, dif_pos hsize']
  rfl

/-- A side that fits is empty or has an entry for each component. -/
theorem checkedSide_cases {side : Side} {entries : List (Option α)} {limits : Limits α n}
    (hside : checkedSide side n entries = .ok limits) :
    (entries = [] ∧ limits = none) ∨
      ∃ v : Vector (Option α) n, entries = v.toList ∧ limits = some v := by
  unfold checkedSide at hside
  split at hside
  next hempty =>
    cases hside
    exact Or.inl ⟨List.isEmpty_iff.mp hempty, rfl⟩
  · split at hside
    next hsize =>
      cases hside
      exact Or.inr ⟨_, rfl, rfl⟩
    · cases hside

theorem at_eq_none_of_checkedSide {side : Side} {entries : List (Option α)} {limits : Limits α n}
    (hside : checkedSide side n entries = .ok limits) (hfree : ∀ limit ∈ entries, limit = none)
    (i : Fin n) : limits.at i = none := by
  rw [at_of_checkedSide hside]
  cases hentry : entries[i.val]? with
  | none => rfl
  | some limit => exact hfree limit (List.mem_of_getElem? hentry)

end Bounds

variable [Scalar α]

namespace Config

theorem checkedTolerance_eq_ok_iff (measure : Measure) (tolerance : α) :
    checkedTolerance measure tolerance = .ok () ↔
      Scalar.isFinite tolerance = true ∧ Scalar.zero ≤ tolerance := by
  unfold checkedTolerance
  split
  next hsound => simpa using hsound
  next hunsound => simpa using hunsound

theorem validate_eq_ok_iff (c : Config α) (n : Nat) (box : Box α n) :
    c.validate n = .ok box ↔
      n ≠ 0 ∧ (Scalar.isFinite c.tau = true ∧ Scalar.zero < c.tau) ∧
      (Scalar.isFinite c.parameterTolerance = true ∧ Scalar.zero ≤ c.parameterTolerance) ∧
      (Scalar.isFinite c.objectiveTolerance = true ∧ Scalar.zero ≤ c.objectiveTolerance) ∧
      c.bounds.validate n = .ok box := by
  rw [← checkedTolerance_eq_ok_iff .parameters, ← checkedTolerance_eq_ok_iff .objective]
  unfold validate
  by_cases hn : n = 0
  · simp [hn, bind, Except.bind]
  · by_cases htau : Scalar.isFinite c.tau = true ∧ Scalar.zero < c.tau
    · cases hx : checkedTolerance .parameters c.parameterTolerance with
      | error fault => simp [hn, htau, bind, Except.bind]
      | ok _ =>
          cases hf : checkedTolerance .objective c.objectiveTolerance with
          | error fault => simp [hn, htau, bind, Except.bind]
          | ok _ => simp [hn, htau, bind, Except.bind]
    · simp [hn, htau, bind, Except.bind]

theorem validate_bounds {c : Config α} {box : Box α n} (hvalid : c.validate n = .ok box) :
    c.bounds.validate n = .ok box :=
  ((c.validate_eq_ok_iff n box).mp hvalid).2.2.2.2

/-- The bounds are looked at last. Either they decide, or something else does not fit, and then that
is what is reported whatever the bounds are. -/
theorem validate_eq_bounds_or_error (c : Config α) (n : Nat) :
    (∀ b : Bounds α, ({ c with bounds := b } : Config α).validate n = b.validate n) ∨
      ∃ fault, ∀ b : Bounds α, ({ c with bounds := b } : Config α).validate n = .error fault := by
  unfold validate
  by_cases hn : n = 0
  · refine Or.inr ⟨.noParameters, fun b => ?_⟩
    rw [if_pos hn]
    rfl
  by_cases htau : Scalar.isFinite c.tau = true ∧ Scalar.zero < c.tau
  · cases hparameters : checkedTolerance .parameters c.parameterTolerance with
    | error fault =>
        refine Or.inr ⟨fault, fun b => ?_⟩
        simp [hn, htau, hparameters, bind, Except.bind]
    | ok _ =>
        cases hobjective : checkedTolerance .objective c.objectiveTolerance with
        | error fault =>
            refine Or.inr ⟨fault, fun b => ?_⟩
            simp [hn, htau, hparameters, hobjective, bind, Except.bind]
        | ok _ =>
            refine Or.inl fun b => ?_
            simp [hn, htau, hparameters, hobjective, bind, Except.bind]
  · refine Or.inr ⟨.badDampingScale c.tau, fun b => ?_⟩
    simp only [hn, htau, Bool.and_eq_true, decide_eq_true_eq, if_false]
    rfl

/-- The box is made from the bounds alone. -/
theorem box_eq_of_validate {c c' : Config α} {box box' : Box α n}
    (hvalid : c.validate n = .ok box) (hvalid' : c'.validate n = .ok box')
    (hbounds : c'.bounds = c.bounds) : box = box' := by
  have hbox' := validate_bounds hvalid'
  rw [hbounds, validate_bounds hvalid] at hbox'
  exact Except.ok.inj hbox'

end Config

namespace Bounds

/-- Both sides of a box were checked, and no lower limit crosses its upper one. -/
theorem checked_of_validate {b : Bounds α} {box : Box α n} (hbox : b.validate n = .ok box) :
    checkedSide .lower n b.lower = .ok box.lower ∧
      checkedSide .upper n b.upper = .ok box.upper ∧ box.crossing? = none := by
  unfold validate at hbox
  cases hlower : checkedSide .lower n b.lower with
  | error fault => simp [hlower, bind, Except.bind] at hbox
  | ok lower =>
      cases hupper : checkedSide .upper n b.upper with
      | error fault => simp [hlower, hupper, bind, Except.bind] at hbox
      | ok upper =>
          simp only [hlower, hupper, bind, Except.bind] at hbox
          split at hbox
          · cases hbox
          next hnone =>
            cases hbox
            exact ⟨rfl, rfl, hnone⟩

theorem validate_of_checked {b : Bounds α} {box : Box α n}
    (hlower : checkedSide .lower n b.lower = .ok box.lower)
    (hupper : checkedSide .upper n b.upper = .ok box.upper) (hcrossing : box.crossing? = none) :
    b.validate n = .ok box := by
  unfold validate
  rw [hlower, hupper]
  dsimp only [bind, Except.bind]
  rw [hcrossing]
  rfl

theorem Free.box {b : Bounds α} {box : Box α n} (hb : b.Free) (hbox : b.validate n = .ok box) :
    box.Free := by
  obtain ⟨hlower, hupper, _⟩ := checked_of_validate hbox
  exact fun i => ⟨at_eq_none_of_checkedSide hlower hb.1 i, at_eq_none_of_checkedSide hupper hb.2 i⟩

theorem validate_unlimited (n : Nat) : (unlimited : Bounds α).validate n = .ok ⟨none, none⟩ :=
  rfl

end Bounds

namespace Config

variable {β : Type} [ExactScalar β]

/-- In exact arithmetic every number is finite, so beside the bounds only signs can be wrong. -/
theorem validate_of_signs {c : Config β} {box : Box β n} (hn : n ≠ 0) (hscale : 0 < c.tau)
    (hparameters : 0 ≤ c.parameterTolerance) (hobjective : 0 ≤ c.objectiveTolerance)
    (hbox : c.bounds.validate n = .ok box) : c.validate n = .ok box := by
  rw [validate_eq_ok_iff, Scalar.zero_eq]
  exact ⟨hn, ⟨rfl, hscale⟩, ⟨rfl, hparameters⟩, ⟨rfl, hobjective⟩, hbox⟩

/-- In exact arithmetic the standard choices fit wherever the bounds do. -/
theorem validate_standard_bounds (style : DampingStyle) {b : Bounds β} {box : Box β n} (hn : n ≠ 0)
    (hbox : b.validate n = .ok box) :
    ({ standard with damping := style, bounds := b } : Config β).validate n = .ok box := by
  apply validate_of_signs hn
  · simp [standard]
  · simp [standard]
  · simp [standard]
  · exact hbox

theorem validate_standard (style : DampingStyle) (hn : n ≠ 0) :
    ({ standard with damping := style } : Config β).validate n = .ok ⟨none, none⟩ :=
  validate_standard_bounds style hn (Bounds.validate_unlimited n)

end Config

/-- A point that no limit concerns stays where it is. -/
theorem Box.Free.clip_eq {box : Box α n} (hbox : box.Free) (x : Vector α n) : box.clip x = x := by
  apply ext_get
  intro i
  rw [clip, get_ofFn, (hbox i).1, (hbox i).2]
  rfl

end LeastSquares
