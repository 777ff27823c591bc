import Mathlib
import LeastSquares.Proofs.Config.RoundTrip

/-! # What values tell of fields

A value of the right kind tells one thing of its field: which choice it is, which number, or which
limits. This is stated here without the reader. Setting a field to a value is then to find the only
configuration that is as told in this field and as before in all others.
-/

namespace LeastSquares

open Decimal

variable {α : Type}

theorem Decimal.Numeral.natural?_eq_some_iff {n : Numeral} {k : Nat} :
    n.natural? = some k ↔ ∃ ds, n = ⟨false, ds, [], none⟩ ∧ value ds = k ∧ k ≤ wordMax := by
  obtain ⟨negative, whole, fraction, exponent⟩ := n
  constructor
  · intro hread
    cases negative <;> cases fraction <;> cases exponent <;> simp [natural?] at hread
    obtain ⟨hfits, rfl⟩ := hread
    exact ⟨whole, rfl, rfl, hfits⟩
  · rintro ⟨ds, heq, rfl, hfits⟩
    cases heq
    simp [natural?, hfits]

namespace Json

/-- A choice by its name, as a string or as the only key of an object that maps it to null. -/
inductive Names (text : String) : Json → Prop
  | string {s : Spelling} (hs : s.text? = some text) : Names text (.string s)
  | key {s : Spelling} (hs : s.text? = some text) : Names text (.object [(s, .null)])

/-- A natural number of at most 64 bits, written with digits alone. -/
inductive Counts : Nat → Json → Prop
  | digits {ds : List Digit} (hfits : value ds ≤ wordMax) :
      Counts (value ds) (.number ⟨false, ds, [], none⟩)

section Numbers

variable [JsonNumber α]

inductive IsNumber (x : α) : Json → Prop
  | number {n : Numeral} (hn : JsonNumber.ofNumeral? n = some x) : IsNumber x (.number n)

inductive IsLimit : Option α → Json → Prop
  | none : IsLimit none .null
  | some {x : α} {v : Json} (hv : v.IsNumber x) : IsLimit (some x) v

inductive AreLimits (limits : List (Option α)) : Json → Prop
  | array {items : List Json} (hitems : List.Forall₂ IsLimit limits items) :
      AreLimits limits (.array items)

end Numbers

theorem toChoice?_eq_some_iff {β : Type} {options : List β} {name : β → String} {v : Json}
    {option : β} (hfind : options.find? (fun other => name other = name option) = some option) :
    v.toChoice? options name = some option ↔ v.Names (name option) := by
  have hgiven : ∀ text, toChoice?.given options name text = some option ↔ text = name option := by
    intro text
    constructor
    · intro hfound
      have hname := List.find?_some hfound
      exact (of_decide_eq_true hname).symm
    · rintro rfl
      exact hfind
  have htext : ∀ s : Spelling, s.text?.bind (toChoice?.given options name) = some option ↔
      s.text? = some (name option) := by
    intro s
    rw [Option.bind_eq_some_iff]
    simp only [hgiven, exists_eq_right]
  unfold toChoice?
  split
  · rw [htext]
    refine ⟨.string, fun hnames => ?_⟩
    cases hnames with
    | string hs => exact hs
  · rw [htext]
    refine ⟨.key, fun hnames => ?_⟩
    cases hnames with
    | key hs => exact hs
  next hstring hobject =>
    refine ⟨nofun, fun hnames => ?_⟩
    cases hnames with
    | string hs => exact absurd rfl (hstring _)
    | key hs => exact absurd rfl (hobject _)

theorem toNat?_eq_some_iff {v : Json} {k : Nat} : v.toNat? = some k ↔ v.Counts k := by
  constructor
  · intro hread
    cases v <;> simp only [toNat?, reduceCtorEq] at hread
    obtain ⟨ds, rfl, rfl, hfits⟩ := Numeral.natural?_eq_some_iff.mp hread
    exact .digits hfits
  · rintro ⟨hfits⟩
    exact Numeral.natural?_eq_some_iff.mpr ⟨_, rfl, rfl, hfits⟩

theorem toBool?_eq_some_iff {v : Json} {b : Bool} : v.toBool? = some b ↔ v = .bool b := by
  cases v <;> simp [toBool?]

section Numbers

variable [JsonNumber α]

theorem toNumber?_eq_some_iff {v : Json} {x : α} : v.toNumber? = some x ↔ v.IsNumber x := by
  constructor
  · intro hread
    cases v <;> simp only [toNumber?, reduceCtorEq] at hread
    exact .number hread
  · rintro ⟨hn⟩
    exact hn

theorem toLimit?_eq_some_iff {v : Json} {limit : Option α} :
    v.toLimit? = some limit ↔ v.IsLimit limit := by
  unfold toLimit?
  split
  · constructor
    · rintro ⟨⟩
      exact .none
    · rintro (_ | ⟨⟨⟩⟩)
      rfl
  next hnull =>
    rw [Option.map_eq_some_iff]
    constructor
    · rintro ⟨x, hx, rfl⟩
      exact .some (toNumber?_eq_some_iff.mp hx)
    · rintro (_ | hv)
      · exact absurd rfl hnull
      · exact ⟨_, toNumber?_eq_some_iff.mpr hv, rfl⟩

theorem mapM_toLimit?_eq_some_iff {items : List Json} {limits : List (Option α)} :
    items.mapM toLimit? = some limits ↔ List.Forall₂ IsLimit limits items := by
  induction items generalizing limits with
  | nil => simp [eq_comm]
  | cons v items ih =>
      rw [List.forall₂_cons_right_iff]
      simp only [List.mapM_cons, Option.bind_eq_bind, Option.bind_eq_some_iff, ih,
        toLimit?_eq_some_iff, Option.pure_def, Option.some.injEq]
      constructor
      · rintro ⟨limit, hlimit, limits, hlimits, rfl⟩
        exact ⟨limit, limits, hlimit, hlimits, rfl⟩
      · rintro ⟨limit, limits, hlimit, hlimits, rfl⟩
        exact ⟨limit, hlimit, limits, hlimits, rfl⟩

theorem toLimits?_eq_some_iff {v : Json} {limits : List (Option α)} :
    v.toLimits? = some limits ↔ v.AreLimits limits := by
  constructor
  · intro hread
    cases v <;> simp only [toLimits?, reduceCtorEq] at hread
    exact .array (mapM_toLimit?_eq_some_iff.mp hread)
  · rintro ⟨hitems⟩
    exact mapM_toLimit?_eq_some_iff.mpr hitems

end Numbers

end Json

namespace Config

namespace Field

section Tells

variable [JsonNumber α]

/-- What a value tells of a configuration as one of its fields. -/
def Tells (c : Config α) (v : Json) : Field → Prop
  | algorithm => v.Names c.algorithm.name
  | damping => v.Names c.damping.name
  | tau => v.IsNumber c.tau
  | parameterTolerance => v.IsNumber c.parameterTolerance
  | objectiveTolerance => v.IsNumber c.objectiveTolerance
  | maxIterations => v.Counts c.maxIterations
  | lowerBound => v.AreLimits c.bounds.lower
  | upperBound => v.AreLimits c.bounds.upper
  | display => v.Names c.display.name
  | recordTrace => v = .bool c.recordTrace

end Tells

/-- Two configurations have the same value in a field. -/
def Agree (c d : Config α) : Field → Prop
  | algorithm => c.algorithm = d.algorithm
  | damping => c.damping = d.damping
  | tau => c.tau = d.tau
  | parameterTolerance => c.parameterTolerance = d.parameterTolerance
  | objectiveTolerance => c.objectiveTolerance = d.objectiveTolerance
  | maxIterations => c.maxIterations = d.maxIterations
  | lowerBound => c.bounds.lower = d.bounds.lower
  | upperBound => c.bounds.upper = d.bounds.upper
  | display => c.display = d.display
  | recordTrace => c.recordTrace = d.recordTrace

theorem agree_refl (c : Config α) (f : Field) : f.Agree c c := by
  cases f <;> rfl

theorem Agree.symm {c d : Config α} {f : Field} (h : f.Agree c d) : f.Agree d c := by
  cases f <;> exact Eq.symm h

theorem Agree.trans {c d e : Config α} {f : Field} (hc : f.Agree c d) (hd : f.Agree d e) :
    f.Agree c e := by
  cases f <;> exact Eq.trans hc hd

/-- The fields make up a configuration. -/
theorem eq_of_agree {c d : Config α} (h : ∀ f : Field, f.Agree c d) : c = d := by
  obtain ⟨_, _, _, _, _, _, ⟨_, _⟩, _, _⟩ := c
  obtain ⟨_, _, _, _, _, _, ⟨_, _⟩, _, _⟩ := d
  rw [Config.mk.injEq, Bounds.mk.injEq]
  exact ⟨h algorithm, h damping, h tau, h parameterTolerance, h objectiveTolerance,
    h maxIterations, ⟨h lowerBound, h upperBound⟩, h display, h recordTrace⟩

theorem agree_copy (c d : Config α) (f : Field) : f.Agree (f.copy c d) c := by
  cases f <;> rfl

theorem agree_copy_of_ne (c d : Config α) {f g : Field} (hne : g ≠ f) :
    g.Agree (f.copy c d) d := by
  cases f <;> cases g <;> first | rfl | exact absurd rfl hne

theorem copy_eq_iff {c d : Config α} {f : Field} :
    f.copy c d = c ↔ ∀ g : Field, g ≠ f → g.Agree c d := by
  constructor
  · intro hcopy g hne
    rw [← hcopy]
    exact agree_copy_of_ne c d hne
  · intro hkept
    refine eq_of_agree fun g => ?_
    by_cases hg : g = f
    · rw [hg]
      exact agree_copy c d f
    · exact (agree_copy_of_ne c d hg).trans (hkept g hg).symm

theorem map_eq_some_iff_of_get {β : Type} {read : Option β} {put : β → Config α}
    (get : Config α → β) (hget : ∀ x, get (put x) = x) {c : Config α} :
    read.map put = some c ↔ read = some (get c) ∧ put (get c) = c := by
  rw [Option.map_eq_some_iff]
  constructor
  · rintro ⟨x, hread, rfl⟩
    rw [hget]
    exact ⟨hread, rfl⟩
  · rintro ⟨hread, hput⟩
    exact ⟨_, hread, hput⟩

variable [JsonNumber α]

theorem tells_congr {c d : Config α} {f : Field} (h : f.Agree c d) (v : Json) :
    f.Tells c v ↔ f.Tells d v := by
  cases f <;> simp only [Agree] at h <;> simp only [Tells, h]

/-- A field is set to what a value tells of it, and nothing else is changed. -/
theorem set?_eq_some_iff {c d : Config α} {v : Json} {f : Field} :
    f.set? d v = some c ↔ f.Tells c v ∧ ∀ g : Field, g ≠ f → g.Agree c d := by
  rw [← copy_eq_iff]
  cases f with
  | algorithm =>
      refine (map_eq_some_iff_of_get (·.algorithm) fun _ => rfl).trans (and_congr_left' ?_)
      exact Json.toChoice?_eq_some_iff (by cases c.algorithm; decide)
  | damping =>
      refine (map_eq_some_iff_of_get (·.damping) fun _ => rfl).trans (and_congr_left' ?_)
      exact Json.toChoice?_eq_some_iff (by cases c.damping <;> decide)
  | tau =>
      refine (map_eq_some_iff_of_get (·.tau) fun _ => rfl).trans (and_congr_left' ?_)
      exact Json.toNumber?_eq_some_iff
  | parameterTolerance =>
      refine (map_eq_some_iff_of_get (·.parameterTolerance) fun _ => rfl).trans
        (and_congr_left' ?_)
      exact Json.toNumber?_eq_some_iff
  | objectiveTolerance =>
      refine (map_eq_some_iff_of_get (·.objectiveTolerance) fun _ => rfl).trans
        (and_congr_left' ?_)
      exact Json.toNumber?_eq_some_iff
  | maxIterations =>
      refine (map_eq_some_iff_of_get (·.maxIterations) fun _ => rfl).trans (and_congr_left' ?_)
      exact Json.toNat?_eq_some_iff
  | lowerBound =>
      refine (map_eq_some_iff_of_get (·.bounds.lower) fun _ => rfl).trans (and_congr_left' ?_)
      exact Json.toLimits?_eq_some_iff
  | upperBound =>
      refine (map_eq_some_iff_of_get (·.bounds.upper) fun _ => rfl).trans (and_congr_left' ?_)
      exact Json.toLimits?_eq_some_iff
  | display =>
      refine (map_eq_some_iff_of_get (·.display) fun _ => rfl).trans (and_congr_left' ?_)
      exact Json.toChoice?_eq_some_iff (by cases c.display <;> decide)
  | recordTrace =>
      refine (map_eq_some_iff_of_get (·.recordTrace) fun _ => rfl).trans (and_congr_left' ?_)
      exact Json.toBool?_eq_some_iff

theorem ofName?_eq_some_iff {text : String} {f : Field} :
    ofName? text = some f ↔ text = f.name := by
  constructor
  · intro hfound
    have hname := List.find?_some hfound
    exact (of_decide_eq_true hname).symm
  · rintro rfl
    exact ofName?_name f

end Field

end Config

end LeastSquares
