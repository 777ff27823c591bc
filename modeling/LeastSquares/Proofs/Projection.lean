import Mathlib
import LeastSquares.Proofs.Containment
import LeastSquares.Proofs.Double.Value

/-! # Clipping as a projection

A component stays where it is, or it goes to the limit that it is beyond. Limits that do not cross
cannot both be exceeded, so it does not matter which side is applied first, and the clipped point is
the point within the bounds that is nearest in every component. Clipping keeps the order of points
and takes no two of them farther apart.
-/

namespace LeastSquares

variable {α : Type} {n : Nat}

open Scalar

/-- Finite values stand for numbers and compare as these do. -/
class ExactlyValued (α : Type) (β : outParam Type) [Scalar α] [LinearOrder β] where
  value : α → β
  le_iff {a b : α} : isFinite a = true → isFinite b = true → (a ≤ b ↔ value a ≤ value b)

instance : ExactlyValued Float ℚ := ⟨Double.value, Double.le_iff_value⟩

instance {α : Type} [ExactScalar α] : ExactlyValued α α := ⟨id, fun _ _ => Iff.rfl⟩

variable [Scalar α]

theorem ExactlyValued.isNaN_eq_false {β : Type} [LinearOrder β] [ExactlyValued α β] {x : α}
    (hx : isFinite x = true) : isNaN x = false :=
  isNaN_eq_false_iff.mpr ((ExactlyValued.le_iff hx hx).mpr le_rfl)

namespace Box

/-! ### One component -/

variable {lo hi : Option α} {x z : α}

/-- A component stays, or it goes to the limit that it is beyond. -/
theorem raised_lowered_cases (huncrossed : ∀ l h, lo = some l → hi = some h → ¬h < l) (x : α) :
    raised lo (lowered hi x) = x ∨
      (∃ h, hi = some h ∧ h < x ∧ raised lo (lowered hi x) = h) ∨
      ∃ l, lo = some l ∧ x < l ∧ raised lo (lowered hi x) = l := by
  rcases lowered_cases hi x with ⟨hstays, _⟩ | ⟨h, hhi, hbeyond, hgoes⟩
  · rw [hstays]
    rcases raised_cases lo x with ⟨hstays, _⟩ | ⟨l, hlo, hbeyond, hgoes⟩
    · exact Or.inl hstays
    · exact Or.inr (Or.inr ⟨l, hlo, hbeyond, hgoes⟩)
  · rw [hgoes]
    rcases raised_cases lo h with ⟨hstays, _⟩ | ⟨l, hlo, hcrossed, _⟩
    · exact Or.inr (Or.inl ⟨h, hhi, hbeyond, hstays⟩)
    · exact absurd hcrossed (huncrossed l h hlo hhi)

variable [LawfulOrder α]

/-- What is not a number stays as it is. -/
theorem raised_lowered_eq_of_isNaN (huncrossed : ∀ l h, lo = some l → hi = some h → ¬h < l)
    (hx : isNaN x = true) : raised lo (lowered hi x) = x := by
  rcases raised_lowered_cases huncrossed x with hstays | ⟨h, _, hbeyond, _⟩ | ⟨l, _, hbeyond, _⟩
  · exact hstays
  · rw [(isNaN_eq_false_of_le (le_of_lt hbeyond)).2] at hx
    cases hx
  · rw [(isNaN_eq_false_of_le (le_of_lt hbeyond)).1] at hx
    cases hx

/-- It does not matter which side is applied first. -/
theorem lowered_raised (huncrossed : ∀ l h, lo = some l → hi = some h → ¬h < l) (x : α) :
    lowered hi (raised lo x) = raised lo (lowered hi x) := by
  rcases raised_cases lo x with ⟨hraised, _⟩ | ⟨l, hlo, hbelow, hraised⟩
  · rcases lowered_cases hi x with ⟨hlowered, _⟩ | ⟨h, hhi, _, hlowered⟩
    · rw [hraised, hlowered, hraised]
    · rw [hraised, hlowered]
      rcases raised_cases lo h with ⟨hstays, _⟩ | ⟨l, hlo, hcrossed, _⟩
      · rw [hstays]
      · exact absurd hcrossed (huncrossed l h hlo hhi)
  · rcases lowered_cases hi x with ⟨hlowered, _⟩ | ⟨h, hhi, habove, _⟩
    · rw [hlowered, hraised]
      rcases lowered_cases hi l with ⟨hstays, _⟩ | ⟨h, hhi, hcrossed, _⟩
      · exact hstays
      · exact absurd hcrossed (huncrossed l h hlo hhi)
    · exact absurd (lt_of_lt_of_le habove (le_of_lt hbelow)) (huncrossed l h hlo hhi)

theorem lowered_le_lowered (hi : Option α) (hle : x ≤ z) : lowered hi x ≤ lowered hi z := by
  obtain ⟨hx, hz⟩ := isNaN_eq_false_of_le hle
  rcases lowered_cases hi x with ⟨hlowered, hbelow⟩ | ⟨h, hhi, habove, hlowered⟩
  · rcases lowered_cases hi z with ⟨hlowered', _⟩ | ⟨h, hhi, habove, hlowered'⟩
    · rwa [hlowered, hlowered']
    · rw [hlowered, hlowered']
      exact le_of_not_lt (isNaN_eq_false_of_le (le_of_lt habove)).1 hx (hbelow h hhi)
  · rcases lowered_cases hi z with ⟨_, hbelow⟩ | ⟨h', hhi', _, hlowered'⟩
    · exact absurd (lt_of_lt_of_le habove hle) (hbelow h hhi)
    · cases hhi.symm.trans hhi'
      rw [hlowered, hlowered']
      exact (LawfulOrder.numbers_of_le (le_of_lt habove)).1

theorem raised_le_raised (lo : Option α) (hle : x ≤ z) : raised lo x ≤ raised lo z := by
  obtain ⟨hx, hz⟩ := isNaN_eq_false_of_le hle
  rcases raised_cases lo z with ⟨hraised, habove⟩ | ⟨l, hlo, hbelow, hraised⟩
  · rcases raised_cases lo x with ⟨hraised', _⟩ | ⟨l, hlo, hbelow, hraised'⟩
    · rwa [hraised, hraised']
    · rw [hraised, hraised']
      exact le_of_not_lt hz (isNaN_eq_false_of_le (le_of_lt hbelow)).2 (habove l hlo)
  · rcases raised_cases lo x with ⟨_, habove⟩ | ⟨l', hlo', _, hraised'⟩
    · exact absurd (lt_of_le_of_lt hle hbelow) (habove l hlo)
    · cases hlo.symm.trans hlo'
      rw [hraised, hraised']
      exact (LawfulOrder.numbers_of_le (le_of_lt hbelow)).2

end Box

/-! ### Distances -/

/-- A limit that is finite, or one that leaves its component free. -/
def FiniteOrFree (limit : Option α) : Prop :=
  ∀ a, limit = some a → isNaN a = false → isFinite a = true

theorem FiniteOrFree.of_exact {β : Type} [ExactScalar β] (limit : Option β) :
    FiniteOrFree limit :=
  fun a _ _ => isFinite_eq_true a

instance (limit : Option α) : Decidable (FiniteOrFree limit) :=
  match limit with
  | none => isTrue nofun
  | some a => decidable_of_iff (isNaN a = false → isFinite a = true)
      ⟨fun ha _ heq => Option.some.inj heq ▸ ha, fun ha => ha a rfl⟩

/-- No limit is infinite. -/
@[mk_iff] structure Bounds.NoneInfinite (b : Bounds α) : Prop where
  lower : ∀ lo ∈ b.lower, FiniteOrFree lo
  upper : ∀ hi ∈ b.upper, FiniteOrFree hi

instance (b : Bounds α) : Decidable b.NoneInfinite :=
  decidable_of_iff _ (Bounds.noneInfinite_iff b).symm

section Distances

variable [LawfulOrder α] {lo hi : Option α} {x y z : α}

theorem Box.isFinite_lowered (hhi : FiniteOrFree hi) (hx : isFinite x = true) :
    isFinite (lowered hi x) = true := by
  rcases lowered_cases hi x with ⟨hlowered, _⟩ | ⟨h, hlimit, hbeyond, hlowered⟩
  · rwa [hlowered]
  · rw [hlowered]
    exact hhi h hlimit (isNaN_eq_false_of_le (le_of_lt hbeyond)).1

variable {β : Type} [LinearOrder β] [ExactlyValued α β]

open ExactlyValued (value le_iff)

/-- A clipped component lies between where it was and any value that keeps to the limits. -/
theorem Within.value_mem_uIcc (hy : Within lo hi y)
    (huncrossed : ∀ l h, lo = some l → hi = some h → ¬h < l) (hlo : FiniteOrFree lo)
    (hhi : FiniteOrFree hi) (hx : isFinite x = true) (hyfinite : isFinite y = true) :
    value (Box.raised lo (Box.lowered hi x)) ∈ Set.uIcc (value x) (value y) := by
  have hynumber := ExactlyValued.isNaN_eq_false hyfinite
  rcases Box.raised_lowered_cases huncrossed x with
    hstays | ⟨h, hlimit, hbeyond, hgoes⟩ | ⟨l, hlimit, hbeyond, hgoes⟩
  · rw [hstays]
    exact Set.left_mem_uIcc
  · have hnumber := (isNaN_eq_false_of_le (le_of_lt hbeyond)).1
    have hfinite := hhi h hlimit hnumber
    rw [hgoes, Set.mem_uIcc, ← le_iff hyfinite hfinite, ← le_iff hfinite hx]
    exact Or.inr ⟨hy.le_upper h hlimit hnumber hynumber, le_of_lt hbeyond⟩
  · have hnumber := (isNaN_eq_false_of_le (le_of_lt hbeyond)).2
    have hfinite := hlo l hlimit hnumber
    rw [hgoes, Set.mem_uIcc, ← le_iff hx hfinite, ← le_iff hfinite hyfinite]
    exact Or.inl ⟨le_of_lt hbeyond, hy.lower_le l hlimit hnumber hynumber⟩

/-- Bringing components down to a limit is taking minima, unless they are free. -/
theorem Box.value_lowered (hhi : FiniteOrFree hi) :
    (∀ x, isFinite x = true → value (lowered hi x) = value x) ∨
      ∃ c : β, ∀ x, isFinite x = true → value (lowered hi x) = min (value x) c := by
  cases hi with
  | none => exact Or.inl fun _ _ => rfl
  | some h =>
      cases hnumber : isNaN h with
      | true =>
          refine Or.inl fun x _ => congrArg value (if_neg fun hlt => ?_)
          rw [(isNaN_eq_false_of_le (le_of_lt hlt)).1] at hnumber
          cases hnumber
      | false =>
          have hfinite := hhi h rfl hnumber
          refine Or.inr ⟨value h, fun x hx => ?_⟩
          rcases lowered_cases (some h) x with ⟨hstays, hbelow⟩ | ⟨_, ⟨⟩, hbeyond, hgoes⟩
          · have hle := le_of_not_lt hnumber (ExactlyValued.isNaN_eq_false hx) (hbelow h rfl)
            rw [hstays, min_eq_left ((le_iff hx hfinite).mp hle)]
          · rw [hgoes, min_eq_right ((le_iff hfinite hx).mp (le_of_lt hbeyond))]

/-- Bringing components up to a limit is taking maxima, unless they are free. -/
theorem Box.value_raised (hlo : FiniteOrFree lo) :
    (∀ x, isFinite x = true → value (raised lo x) = value x) ∨
      ∃ c : β, ∀ x, isFinite x = true → value (raised lo x) = max (value x) c := by
  cases lo with
  | none => exact Or.inl fun _ _ => rfl
  | some l =>
      cases hnumber : isNaN l with
      | true =>
          refine Or.inl fun x _ => congrArg value (if_neg fun hlt => ?_)
          rw [(isNaN_eq_false_of_le (le_of_lt hlt)).2] at hnumber
          cases hnumber
      | false =>
          have hfinite := hlo l rfl hnumber
          refine Or.inr ⟨value l, fun x hx => ?_⟩
          rcases raised_cases (some l) x with ⟨hstays, habove⟩ | ⟨_, ⟨⟩, hbeyond, hgoes⟩
          · have hle := le_of_not_lt (ExactlyValued.isNaN_eq_false hx) hnumber (habove l rfl)
            rw [hstays, max_eq_left ((le_iff hfinite hx).mp hle)]
          · rw [hgoes, max_eq_right ((le_iff hx hfinite).mp (le_of_lt hbeyond))]

end Distances

section Nonexpansive

variable [LawfulOrder α] {β : Type} [Field β] [LinearOrder β] [IsStrictOrderedRing β]
  [ExactlyValued α β] {lo hi : Option α} {x z : α}

open ExactlyValued (value)

theorem Box.abs_value_lowered_sub_le (hhi : FiniteOrFree hi) (hx : isFinite x = true)
    (hz : isFinite z = true) :
    |value (lowered hi x) - value (lowered hi z)| ≤ |value x - value z| := by
  rcases value_lowered hhi with hvalue | ⟨c, hvalue⟩
  · rw [hvalue x hx, hvalue z hz]
  · rw [hvalue x hx, hvalue z hz]
    exact abs_inf_sub_inf_le_abs _ _ _

theorem Box.abs_value_raised_sub_le (hlo : FiniteOrFree lo) (hx : isFinite x = true)
    (hz : isFinite z = true) :
    |value (raised lo x) - value (raised lo z)| ≤ |value x - value z| := by
  rcases value_raised hlo with hvalue | ⟨c, hvalue⟩
  · rw [hvalue x hx, hvalue z hz]
  · rw [hvalue x hx, hvalue z hz]
    exact abs_sup_sub_sup_le_abs _ _ _

/-- Clipping takes no two values farther apart. -/
theorem Box.abs_value_sub_le (hlo : FiniteOrFree lo) (hhi : FiniteOrFree hi)
    (hx : isFinite x = true) (hz : isFinite z = true) :
    |value (raised lo (lowered hi x)) - value (raised lo (lowered hi z))| ≤
      |value x - value z| :=
  (abs_value_raised_sub_le hlo (isFinite_lowered hhi hx) (isFinite_lowered hhi hz)).trans
    (abs_value_lowered_sub_le hhi hx hz)

end Nonexpansive

/-! ### Points -/

namespace Bounds

variable {b : Bounds α} {box : Box α n}

omit [Scalar α] in
theorem sideFor?_of_checkedSide {side : Side} {entries : List (Option α)} {limits : Limits α n}
    (hside : checkedSide side n entries = .ok limits) : sideFor? n entries = some limits := by
  unfold checkedSide at hside
  unfold sideFor?
  split at hside
  next hempty =>
    cases hside
    rw [if_pos hempty]
  next hentries =>
    split at hside
    next hsize =>
      cases hside
      rw [if_neg hentries, spread?, dif_pos hsize]
      rfl
    · cases hside

/-- Validated bounds clip a point into their box. -/
theorem clip?_of_validate (hvalid : b.validate n = .ok box) (x : Vector α n) :
    b.clip? x = some (box.clip x) := by
  obtain ⟨hlower, hupper, _⟩ := checked_of_validate hvalid
  rw [clip?, box?, sideFor?_of_checkedSide hlower, sideFor?_of_checkedSide hupper]
  rfl

theorem clip?_lower (hvalid : b.validate n = .ok box) (x : Vector α n) :
    clip? ⟨b.lower, []⟩ x = some ((⟨box.lower, none⟩ : Box α n).clip x) := by
  rw [clip?, box?, sideFor?_of_checkedSide (checked_of_validate hvalid).1]
  rfl

theorem clip?_upper (hvalid : b.validate n = .ok box) (x : Vector α n) :
    clip? ⟨[], b.upper⟩ x = some ((⟨none, box.upper⟩ : Box α n).clip x) := by
  rw [clip?, box?, sideFor?_of_checkedSide (checked_of_validate hvalid).2.1]
  rfl

theorem NoneInfinite.lower_at (hb : b.NoneInfinite) (hvalid : b.validate n = .ok box)
    (i : Fin n) : FiniteOrFree (box.lower.at i) := by
  intro l hl
  exact hb.lower _ (mem_of_checkedSide (checked_of_validate hvalid).1 hl) l rfl

theorem NoneInfinite.upper_at (hb : b.NoneInfinite) (hvalid : b.validate n = .ok box)
    (i : Fin n) : FiniteOrFree (box.upper.at i) := by
  intro h hh
  exact hb.upper _ (mem_of_checkedSide (checked_of_validate hvalid).2.1 hh) h rfl

variable [LawfulOrder α]

/-- The lower side may be applied before the upper one. -/
theorem clip?_lower_bind_upper (hvalid : b.validate n = .ok box) (x : Vector α n) :
    (clip? ⟨b.lower, []⟩ x).bind (clip? ⟨[], b.upper⟩) = some (box.clip x) := by
  rw [clip?_lower hvalid, Option.bind_some, clip?_upper hvalid, Option.some_inj]
  apply ext_get
  intro i
  rw [Box.get_clip, Box.get_clip, Box.get_clip]
  exact Box.lowered_raised (uncrossed_of_validate hvalid i) (x.get i)

end Bounds

open ExactlyValued (value) in
/-- Clipping is the projection onto the box of validated bounds. The clipped point passes the
membership test, and exactly the points that pass it stay where they are. Clipping twice is clipping
once, the order of the sides does not matter, and the order of points is kept. In every component
the clipped point is the nearest one within the bounds, and no two points get farther apart; these
are statements about the numbers that finite components stand for. -/
theorem clip_projects [LawfulOrder α] {β : Type} [Field β] [LinearOrder β] [IsStrictOrderedRing β]
    [ExactlyValued α β] (b : Bounds α) {box : Box α n} (hvalid : b.validate n = .ok box) :
    (∀ x, b.clip? x = some (box.clip x)) ∧
    (∀ x : Vector α n, (∀ i, isNaN (x.get i) = false) →
      b.contains (box.clip x).toList = true ∧
      (box.clip x = x ↔ b.contains x.toList = true)) ∧
    (∀ x, box.clip (box.clip x) = box.clip x) ∧
    (∀ x, (Bounds.clip? ⟨b.lower, []⟩ x).bind (Bounds.clip? ⟨[], b.upper⟩) =
      some (box.clip x)) ∧
    (∀ (x : Vector α n) (i : Fin n), isNaN (x.get i) = true → (box.clip x).get i = x.get i) ∧
    (∀ (x z : Vector α n) (i : Fin n), x.get i ≤ z.get i →
      (box.clip x).get i ≤ (box.clip z).get i) ∧
    (b.NoneInfinite → ∀ x : Vector α n, (∀ i, isFinite (x.get i) = true) →
      (∀ y : Vector α n, (∀ i, isFinite (y.get i) = true) → b.contains y.toList = true →
        ∀ i, |value ((box.clip x).get i) - value (x.get i)| ≤
          |value (y.get i) - value (x.get i)|) ∧
      ∀ z : Vector α n, (∀ i, isFinite (z.get i) = true) →
        ∀ i, |value ((box.clip x).get i) - value ((box.clip z).get i)| ≤
          |value (x.get i) - value (z.get i)|) := by
  have huncrossed := Bounds.uncrossed_of_validate hvalid
  refine ⟨Bounds.clip?_of_validate hvalid, ?_, ?_, Bounds.clip?_lower_bind_upper hvalid, ?_, ?_, ?_⟩
  · intro x hx
    have hclip (i : Fin n) : isNaN ((box.clip x).get i) = false := by
      rw [Box.get_clip, Box.isNaN_raised, Box.isNaN_lowered, hx i]
    rw [Bounds.contains_iff_holds hx, Bounds.contains_iff_holds hclip]
    exact ⟨b.holds_clip hvalid x, b.clip_eq_iff hvalid x⟩
  · intro x
    exact (b.clip_eq_iff hvalid _).mpr (b.holds_clip hvalid x)
  · intro x i hx
    rw [Box.get_clip]
    exact Box.raised_lowered_eq_of_isNaN (huncrossed i) hx
  · intro x z i hle
    rw [Box.get_clip, Box.get_clip]
    exact Box.raised_le_raised _ (Box.lowered_le_lowered _ hle)
  · intro hb x hx
    constructor
    · intro y hy hcontains i
      have hholds := (Bounds.contains_iff_holds fun i =>
        ExactlyValued.isNaN_eq_false (hy i)).mp hcontains i
      obtain ⟨hlower, hupper, _⟩ := Bounds.checked_of_validate hvalid
      rw [← Bounds.at_of_checkedSide hlower, ← Bounds.at_of_checkedSide hupper] at hholds
      rw [Box.get_clip]
      exact Set.abs_sub_left_of_mem_uIcc (hholds.value_mem_uIcc (huncrossed i)
        (hb.lower_at hvalid i) (hb.upper_at hvalid i) (hx i) (hy i))
    · intro z hz i
      rw [Box.get_clip, Box.get_clip]
      exact Box.abs_value_sub_le (hb.lower_at hvalid i) (hb.upper_at hvalid i) (hx i) (hz i)

open ExactlyValued (value) in
/-- The first component has limits and the second one is free, once by a limit that is not a
number. -/
theorem clip_projects_beside_free_component :
    let b : Bounds Float := ⟨[some 1.0, some (0.0 / 0.0)], [some 3.0, none]⟩
    let clipped : Vector Float 2 := #v[1.0, 7.0]
    b.clip? #v[0.5, 7.0] = some clipped ∧ b.contains clipped.toList = true ∧
      ∀ y : Vector Float 2, (∀ i, isFinite (y.get i) = true) → b.contains y.toList = true →
        ∀ i, |value (clipped.get i) - value ((#v[0.5, 7.0] : Vector Float 2).get i)| ≤
          |value (y.get i) - value ((#v[0.5, 7.0] : Vector Float 2).get i)| := by
  intro b clipped
  let box : Box Float 2 := ⟨some #v[some 1.0, some (0.0 / 0.0)], some #v[some 3.0, none]⟩
  have hnoneInfinite : b.NoneInfinite := by decide +kernel +revert
  have hclip : box.clip #v[0.5, 7.0] = clipped := by decide +kernel +revert
  have hvalid : b.validate 2 = .ok box := rfl
  obtain ⟨hclip?, hnumbers, _, _, _, _, hdistances⟩ := clip_projects b hvalid
  refine ⟨?_, ?_, ?_⟩
  · rw [hclip?, hclip]
  · rw [← hclip]
    exact (hnumbers _ (by decide +kernel)).1
  · rw [← hclip]
    exact (hdistances hnoneInfinite _ (by decide +kernel)).1

end LeastSquares
