import Mathlib
import LeastSquares.Proofs.Containment

/-! # Solvable bounds

Bounds fit a number of parameters exactly if each side is empty or has an entry for each parameter,
and some point of numbers passes the membership test. The limits of one component leave room for a
number exactly if they do not cross, and zero brought to its limits is then one. So the fault of
bounds whose sides fit names the first component for which there is no value.
-/

namespace LeastSquares

variable {α : Type} {n : Nat}

open Scalar

/-- Each side is empty or has an entry for each parameter. -/
structure Bounds.Sized (b : Bounds α) (n : Nat) : Prop where
  lower : b.lower.length = 0 ∨ b.lower.length = n
  upper : b.upper.length = 0 ∨ b.upper.length = n

theorem Bounds.exists_checkedSide_iff (side : Side) (entries : List (Option α)) :
    (∃ limits : Limits α n, checkedSide side n entries = .ok limits) ↔
      entries.length = 0 ∨ entries.length = n := by
  unfold checkedSide
  rw [← List.isEmpty_iff_length_eq_zero]
  by_cases hempty : entries.isEmpty = true
  · simp [hempty]
  · by_cases hsize : entries.toArray.size = n
    · have hlength : entries.length = n := hsize
      simp [hempty, hsize, hlength]
    · have hlength : ¬entries.length = n := hsize
      simp [hempty, hlength]

/-- The box of sides that fit, crossed or not. -/
theorem Bounds.Sized.exists_box {b : Bounds α} (hb : b.Sized n) : ∃ box : Box α n,
    checkedSide .lower n b.lower = .ok box.lower ∧
      checkedSide .upper n b.upper = .ok box.upper := by
  obtain ⟨lower, hlower⟩ := (exists_checkedSide_iff .lower _).mpr hb.lower
  obtain ⟨upper, hupper⟩ := (exists_checkedSide_iff .upper _).mpr hb.upper
  exact ⟨⟨lower, upper⟩, hlower, hupper⟩

/-- Components before the one where a list of all of them is cut. -/
theorem mem_of_finRange_eq_append {before after : List (Fin n)} {i j : Fin n}
    (hcut : List.finRange n = before ++ i :: after) (hlt : j < i) : j ∈ before := by
  have hsorted := List.pairwise_lt_finRange n
  rw [hcut, List.pairwise_append, List.pairwise_cons] at hsorted
  have hmem : j ∈ before ++ i :: after := hcut ▸ List.mem_finRange j
  rcases List.mem_append.mp hmem with hbefore | hrest
  · exact hbefore
  · rcases List.mem_cons.mp hrest with rfl | hafter
    · exact absurd hlt (lt_irrefl j)
    · exact absurd hlt (hsorted.2.1.1 j hafter).not_gt

variable [Scalar α]

namespace Box

/-- The crossing that is reported is the first one. -/
theorem crossing?_eq_some {box : Box α n} {fault : Fault α} (hfault : box.crossing? = some fault) :
    ∃ (i : Fin n) (lo hi : α), fault = .crossedLimits lo hi i ∧ box.lower.at i = some lo ∧
      box.upper.at i = some hi ∧ hi < lo ∧ ∀ j < i, ∀ l h, box.lower.at j = some l →
        box.upper.at j = some h → ¬h < l := by
  obtain ⟨_ | lower, _ | upper⟩ := box
  · cases hfault
  · cases hfault
  · cases hfault
  rw [crossing?_eq_findSome?, List.findSome?_eq_some_iff] at hfault
  obtain ⟨before, i, after, hcut, hcrossed, hbefore⟩ := hfault
  obtain ⟨lo, hi, hlo, hhi, hlt, rfl⟩ := crossed?_eq_some hcrossed
  refine ⟨i, lo, hi, rfl, hlo, hhi, hlt, ?_⟩
  intro j hj
  exact crossed?_eq_none_iff.mp (hbefore j (mem_of_finRange_eq_append hcut hj))

end Box

namespace Bounds

variable {b : Bounds α}

/-- Sides that fit leave only crossings as a fault. -/
theorem validate_eq_error_iff {box : Box α n}
    (hlower : checkedSide .lower n b.lower = .ok box.lower)
    (hupper : checkedSide .upper n b.upper = .ok box.upper) (fault : Fault α) :
    b.validate n = .error fault ↔ box.crossing? = some fault := by
  unfold validate
  rw [hlower, hupper]
  dsimp only [bind, Except.bind]
  cases hcrossing : box.crossing? with
  | none => simp [pure, Except.pure]
  | some first => simp [throw, throwThe, MonadExceptOf.throw]

theorem sized_of_validate {box : Box α n} (hvalid : b.validate n = .ok box) : b.Sized n := by
  obtain ⟨hlower, hupper, _⟩ := checked_of_validate hvalid
  exact ⟨(exists_checkedSide_iff .lower _).mp ⟨_, hlower⟩,
    (exists_checkedSide_iff .upper _).mp ⟨_, hupper⟩⟩

variable [LawfulOrder α]

/-- Crossed limits exclude everything. -/
theorem admits_eq_false_of_lt {i : Nat} {lo hi : α} (hlo : b.lower[i]?.join = some lo)
    (hhi : b.upper[i]?.join = some hi) (hlt : hi < lo) (x : α) : b.admits i x = false := by
  obtain ⟨hhinumber, hlonumber⟩ := isNaN_eq_false_of_le (le_of_lt hlt)
  rw [← Bool.not_eq_true, admits, hlo, hhi, Bool.and_eq_true, reaches_iff, stays_iff]
  rintro ⟨hlower, hupper⟩
  have hle := LawfulOrder.trans (hlower lo rfl hlonumber) (hupper hi rfl hhinumber)
  exact (LawfulOrder.lt_iff.mp hlt).2 hle

/-- Limits that do not cross leave room for a number. -/
theorem exists_admits_of_not_lt (hzero : isNaN (zero : α) = false) {i : Nat}
    (huncrossed : ∀ l h, b.lower[i]?.join = some l → b.upper[i]?.join = some h → ¬h < l) :
    ∃ x, isNaN x = false ∧ b.admits i x = true := by
  have hnumber : isNaN (Box.raised b.lower[i]?.join (Box.lowered b.upper[i]?.join (zero : α))) =
      false := by
    rw [Box.isNaN_raised, Box.isNaN_lowered, hzero]
  exact ⟨_, hnumber, (admits_iff_within hnumber).mpr (Box.within_raised_lowered zero huncrossed)⟩

/-- Zero brought into the box of validated bounds is a point of numbers within them. -/
theorem exists_contains_of_validate (hzero : isNaN (zero : α) = false) {box : Box α n}
    (hvalid : b.validate n = .ok box) :
    ∃ x : Vector α n, (∀ i, isNaN (x.get i) = false) ∧ b.contains x.toList = true := by
  have hnumbers (i : Fin n) : isNaN ((box.clip (Vector.ofFn fun _ => zero)).get i) = false := by
    rw [Box.get_clip, Box.isNaN_raised, Box.isNaN_lowered, get_ofFn, hzero]
  exact ⟨_, hnumbers, (contains_iff_holds hnumbers).mpr (b.holds_clip hvalid _)⟩

/-- The fault of bounds whose sides fit names the first component without a value. -/
theorem Sized.firstUnsolvable (hb : b.Sized n) (hzero : isNaN (zero : α) = false)
    {fault : Fault α} (hfault : b.validate n = .error fault) :
    ∃ lo hi i, fault = .crossedLimits lo hi i ∧ i < n ∧ b.lower[i]? = some (some lo) ∧
      b.upper[i]? = some (some hi) ∧ (∀ x, b.admits i x = false) ∧
      ∀ j < i, ∃ x, isNaN x = false ∧ b.admits j x = true := by
  obtain ⟨box, hlower, hupper⟩ := hb.exists_box
  rw [validate_eq_error_iff hlower hupper] at hfault
  obtain ⟨i, lo, hi, rfl, hlo, hhi, hlt, hfirst⟩ := Box.crossing?_eq_some hfault
  rw [at_of_checkedSide hlower] at hlo
  rw [at_of_checkedSide hupper] at hhi
  refine ⟨lo, hi, i, rfl, i.isLt, Option.join_eq_some_iff.mp hlo, Option.join_eq_some_iff.mp hhi,
    admits_eq_false_of_lt hlo hhi hlt, ?_⟩
  intro j hj
  have huncrossed := hfirst ⟨j, hj.trans i.isLt⟩ hj
  rw [at_of_checkedSide hlower, at_of_checkedSide hupper] at huncrossed
  exact exists_admits_of_not_lt hzero huncrossed

/-- Bounds fit exactly if their sides do and some point of numbers is within them. -/
theorem exists_validate_iff (hzero : isNaN (zero : α) = false) :
    (∃ box : Box α n, b.validate n = .ok box) ↔
      b.Sized n ∧
        ∃ x : Vector α n, (∀ i, isNaN (x.get i) = false) ∧ b.contains x.toList = true := by
  constructor
  · rintro ⟨box, hvalid⟩
    exact ⟨sized_of_validate hvalid, exists_contains_of_validate hzero hvalid⟩
  · rintro ⟨hsized, x, hx, hcontains⟩
    cases hvalid : b.validate n with
    | ok box => exact ⟨box, rfl⟩
    | error fault =>
        obtain ⟨_, _, i, _, hi, _, _, hnone, _⟩ := hsized.firstUnsolvable hzero hvalid
        have hadmits := (b.contains_iff x).mp hcontains ⟨i, hi⟩
        rw [hnone] at hadmits
        cases hadmits

end Bounds

/-- Validation accepts exactly the bounds that some point of numbers keeps to. It says of others
which component is the first without a value, unless a side has the wrong number of entries. A
configuration is accepted if, in addition, there is a parameter, and its damping scale and its
tolerances are finite and of the right sign. -/
theorem validate_iff_solvable [LawfulOrder α] (hzero : isNaN (zero : α) = false) (n : Nat) :
    (∀ b : Bounds α,
      ((∃ box : Box α n, b.validate n = .ok box) ↔ b.Sized n ∧
        ∃ x : Vector α n, (∀ i, isNaN (x.get i) = false) ∧ b.contains x.toList = true) ∧
      (b.Sized n → ∀ fault, b.validate n = .error fault →
        ∃ lo hi i, fault = .crossedLimits lo hi i ∧ i < n ∧ b.lower[i]? = some (some lo) ∧
          b.upper[i]? = some (some hi) ∧ (∀ x, b.admits i x = false) ∧
          ∀ j < i, ∃ x, isNaN x = false ∧ b.admits j x = true)) ∧
    ∀ config : Config α,
      (∃ box : Box α n, config.validate n = .ok box) ↔
        1 ≤ n ∧ (isFinite config.tau = true ∧ zero < config.tau) ∧
        (isFinite config.parameterTolerance = true ∧ zero ≤ config.parameterTolerance) ∧
        (isFinite config.objectiveTolerance = true ∧ zero ≤ config.objectiveTolerance) ∧
        config.bounds.Sized n ∧ ∃ x : Vector α n, (∀ i, isNaN (x.get i) = false) ∧
          config.bounds.contains x.toList = true := by
  refine ⟨fun b => ⟨Bounds.exists_validate_iff hzero, ?_⟩, ?_⟩
  · intro hsized fault hfault
    exact hsized.firstUnsolvable hzero hfault
  · intro config
    simp only [Config.validate_eq_ok_iff, exists_and_left, Bounds.exists_validate_iff hzero,
      Nat.one_le_iff_ne_zero]

/-- The first component has no lower limit, the second one is kept at infinity, and the limits of
the third cross. -/
theorem validate_iff_solvable_mixed :
    let b : Bounds Float := .ofEntries [0.0 / 0.0, 1.0 / 0.0, 3.0] [1.0, 1.0 / 0.0, 2.0]
    (∀ x : Vector Float 3, (∀ i, isNaN (x.get i) = false) → b.contains x.toList = false) ∧
      (b.validate 3).toBool = false ∧ (∃ x, isNaN x = false ∧ b.admits 1 x = true) ∧
      ∀ x, b.admits 2 x = false := by
  intro b
  have hrefused : (b.validate 3).toBool = false := by decide +kernel +revert
  have hfirst : b.admits 0 (1.0 : Float) = true := by decide +kernel +revert
  have hsecond : b.admits 1 (1.0 / 0.0 : Float) = true := by decide +kernel +revert
  have hsized : b.Sized 3 := ⟨Or.inr rfl, Or.inr rfl⟩
  obtain ⟨hiff, hnamed⟩ := (validate_iff_solvable (α := Float) (by decide +kernel) 3).1 b
  cases hvalid : b.validate 3 with
  | ok box =>
      rw [hvalid] at hrefused
      cases hrefused
  | error fault =>
      obtain ⟨_, _, i, _, hi, _, _, hnone, hbefore⟩ := hnamed hsized fault hvalid
      have hthird : i = 2 := by
        interval_cases i
        · rw [hnone] at hfirst
          cases hfirst
        · rw [hnone] at hsecond
          cases hsecond
        · rfl
      subst hthird
      refine ⟨?_, rfl, hbefore 1 (by decide), hnone⟩
      intro x hx
      by_contra hcontains
      obtain ⟨box, hbox⟩ := hiff.mpr ⟨hsized, x, hx, eq_true_of_ne_false hcontains⟩
      rw [hvalid] at hbox
      cases hbox

end LeastSquares
