import Mathlib
import LeastSquares.Config.Text
import LeastSquares.Proofs.Json.RoundTrip

/-! # Configurations that are written and read

A configuration is written as an object with all its fields, so reading it lays each of them over
the default in turn. All that can get lost on the way are numbers that JSON has no numeral for: a
limit that is not finite is read as no limit, and a damping scale or a tolerance that is not finite
cannot be read at all. That a numeral is read as the number it was written for is an assumption on
the numbers of the configuration at hand.
-/

namespace LeastSquares

open Decimal

variable {α : Type}

section Finite

variable [Scalar α]

/-- A limit that is finite, and none in place of any other. -/
def finiteLimit (limit : Option α) : Option α := limit.filter fun x => Scalar.isFinite x

/-- The bounds without the limits that are not finite. Every entry stays in its place. -/
def Bounds.finitePart (b : Bounds α) : Bounds α := ⟨b.lower.map finiteLimit, b.upper.map finiteLimit⟩

/-- The same choices without the limits that are not finite. -/
def Config.withFiniteBounds (c : Config α) : Config α := { c with bounds := c.bounds.finitePart }

@[simp] theorem finiteLimit_none : finiteLimit (none : Option α) = none := rfl

theorem finiteLimit_some_of_finite {x : α} (hx : Scalar.isFinite x = true) :
    finiteLimit (some x) = some x := by
  simp [finiteLimit, Option.filter, hx]

theorem finiteLimit_some_of_not_finite {x : α} (hx : Scalar.isFinite x = false) :
    finiteLimit (some x) = none := by
  simp [finiteLimit, Option.filter, hx]

/-- Either a limit is kept, or it is not finite and dropped. -/
theorem finiteLimit_cases (limit : Option α) :
    finiteLimit limit = limit ∨
      ∃ x, limit = some x ∧ Scalar.isFinite x = false ∧ finiteLimit limit = none := by
  cases limit with
  | none => exact Or.inl rfl
  | some x =>
      cases hfinite : Scalar.isFinite x with
      | true => exact Or.inl (finiteLimit_some_of_finite hfinite)
      | false => exact Or.inr ⟨x, rfl, hfinite, finiteLimit_some_of_not_finite hfinite⟩

theorem finiteLimit_twice (limit : Option α) : finiteLimit (finiteLimit limit) = finiteLimit limit := by
  simp [finiteLimit, Option.filter_filter]

theorem eq_of_finiteLimit {limit : Option α} {x : α} (hx : finiteLimit limit = some x) :
    limit = some x :=
  (Option.filter_eq_some_iff.mp hx).1

theorem Config.withFiniteBounds_twice (c : Config α) :
    c.withFiniteBounds.withFiniteBounds = c.withFiniteBounds := by
  simp [withFiniteBounds, Bounds.finitePart, Function.comp_def, finiteLimit_twice]

end Finite

/-- The numerals of finite numbers keep to the grammar, and other numbers have none. -/
class LawfulJsonNumber (α : Type) [Scalar α] [JsonNumber α] : Prop where
  toNumeral?_eq_none_iff {x : α} : JsonNumber.toNumeral? x = none ↔ Scalar.isFinite x = false
  proper {x : α} {n : Numeral} : JsonNumber.toNumeral? x = some n → n.Proper

instance : LawfulJsonNumber Float where
  toNumeral?_eq_none_iff {x} := by
    show (if x.isFinite then some (Json.layout.numeral x) else none) = none ↔ x.isFinite = false
    cases x.isFinite <;> simp
  proper {x n} hn := by
    have hnumeral : (if x.isFinite then some (Json.layout.numeral x) else none) = some n := hn
    split at hnumeral
    · cases hnumeral
      exact Layout.numeral_proper _ x
    · cases hnumeral

/-- The numeral of a number, if it has one, is read as that number. -/
def Json.ReadsBack [JsonNumber α] (x : α) : Prop :=
  ∀ n ∈ JsonNumber.toNumeral? x, JsonNumber.ofNumeral? n = some x

namespace Json

theorem readsBack_of_toFloat? {x : Float} (hread : (layout.numeral x).toFloat? = some x) :
    ReadsBack x := by
  intro n hn
  have hnumeral : (if x.isFinite then some (layout.numeral x) else none) = some n := hn
  split at hnumeral
  · cases hnumeral
    exact hread
  · cases hnumeral

theorem readable_ofString {s : String} (hs : ∀ c ∈ s.toList, 0x20 ≤ c.toNat) :
    (ofString s).Readable := by
  refine .string fun p hp => ?_
  obtain ⟨c, hc, rfl⟩ := List.mem_map.mp hp
  exact Or.inl (hs c hc)

theorem toChoice?_ofString {β : Type} {options : List β} {name : β → String} {option : β}
    (hfind : options.find? (fun other => name other = name option) = some option) :
    (ofString (name option)).toChoice? options name = some option := by
  rw [ofString, toChoice?, Spelling.text?_ofString]
  exact hfind

theorem toNat?_ofNat {n : Nat} (hn : n ≤ wordMax) : (ofNat n).toNat? = some n :=
  Numeral.natural?_digits hn

section Numbers

variable [Scalar α] [JsonNumber α] [LawfulJsonNumber α] {x : α}

theorem readsBack_of_not_finite (hx : Scalar.isFinite x = false) : ReadsBack x := by
  intro n hn
  rw [LawfulJsonNumber.toNumeral?_eq_none_iff.mpr hx] at hn
  cases hn

theorem readable_ofNumber (x : α) : (ofNumber x).Readable := by
  unfold ofNumber
  split
  next n hn => exact .number (LawfulJsonNumber.proper hn)
  · exact .null

/-- A finite number has a numeral, and it is read as that number if it reads back. -/
theorem exists_numeral (hx : ReadsBack x) (hfinite : Scalar.isFinite x = true) :
    ∃ n, ofNumber x = .number n ∧ JsonNumber.ofNumeral? n = some x := by
  unfold ofNumber
  split
  next n hn => exact ⟨n, rfl, hx n hn⟩
  next hnone =>
    rw [LawfulJsonNumber.toNumeral?_eq_none_iff.mp hnone] at hfinite
    cases hfinite

theorem ofNumber_of_not_finite (hx : Scalar.isFinite x = false) : ofNumber x = .null := by
  rw [ofNumber, LawfulJsonNumber.toNumeral?_eq_none_iff.mpr hx]

theorem toNumber?_ofNumber (hx : ReadsBack x) :
    (ofNumber x).toNumber? = if Scalar.isFinite x then some x else none := by
  cases hfinite : Scalar.isFinite x with
  | false =>
      rw [ofNumber_of_not_finite hfinite]
      rfl
  | true =>
      obtain ⟨n, hn, hread⟩ := exists_numeral hx hfinite
      rw [hn]
      exact hread

/-- A limit that is not finite is read as none. -/
theorem toLimit?_ofLimit {limit : Option α} (hlimit : ∀ x ∈ limit, ReadsBack x) :
    (ofLimit limit).toLimit? = some (finiteLimit limit) := by
  cases limit with
  | none => rfl
  | some x =>
      cases hfinite : Scalar.isFinite x with
      | false =>
          rw [ofLimit, ofNumber_of_not_finite hfinite, finiteLimit_some_of_not_finite hfinite]
          rfl
      | true =>
          obtain ⟨n, hn, hread⟩ := exists_numeral (hlimit x rfl) hfinite
          rw [ofLimit, hn, finiteLimit_some_of_finite hfinite]
          exact congrArg (Option.map some) hread

theorem toLimits?_ofLimits {limits : List (Option α)}
    (hlimits : ∀ x, some x ∈ limits → ReadsBack x) :
    (Json.array (limits.map ofLimit)).toLimits? = some (limits.map finiteLimit) := by
  show (limits.map ofLimit).mapM toLimit? = _
  induction limits with
  | nil => rfl
  | cons limit limits ih =>
      have hlimit : ∀ x ∈ limit, ReadsBack x := by
        rintro x rfl
        exact hlimits x List.mem_cons_self
      rw [List.map_cons, List.mapM_cons, toLimit?_ofLimit hlimit,
        ih fun x hx => hlimits x (List.mem_cons_of_mem limit hx)]
      rfl

theorem readable_ofLimit (limit : Option α) : (ofLimit limit).Readable := by
  cases limit with
  | none => exact .null
  | some x => exact readable_ofNumber x

end Numbers

end Json

namespace Config

/-- All numbers of a configuration read back, and its cap on iterations fits 64 bits. -/
structure ReadsBack [JsonNumber α] (c : Config α) : Prop where
  tau : Json.ReadsBack c.tau
  parameterTolerance : Json.ReadsBack c.parameterTolerance
  objectiveTolerance : Json.ReadsBack c.objectiveTolerance
  lower : ∀ x, some x ∈ c.bounds.lower → Json.ReadsBack x
  upper : ∀ x, some x ∈ c.bounds.upper → Json.ReadsBack x
  maxIterations : c.maxIterations ≤ wordMax

/-- The numbers that must be finite to be read: all but the limits. -/
structure Legible [Scalar α] (c : Config α) : Prop where
  tau : Scalar.isFinite c.tau = true
  parameterTolerance : Scalar.isFinite c.parameterTolerance = true
  objectiveTolerance : Scalar.isFinite c.objectiveTolerance = true

namespace Field

/-- A configuration with one field taken from another. -/
def copy (c d : Config α) : Field → Config α
  | algorithm => { d with algorithm := c.algorithm }
  | damping => { d with damping := c.damping }
  | tau => { d with tau := c.tau }
  | parameterTolerance => { d with parameterTolerance := c.parameterTolerance }
  | objectiveTolerance => { d with objectiveTolerance := c.objectiveTolerance }
  | maxIterations => { d with maxIterations := c.maxIterations }
  | lowerBound => { d with bounds.lower := c.bounds.lower }
  | upperBound => { d with bounds.upper := c.bounds.upper }
  | display => { d with display := c.display }
  | recordTrace => { d with recordTrace := c.recordTrace }

/-- All fields make up a configuration. -/
theorem foldl_copy (c d : Config α) : all.foldl (fun d f => f.copy c d) d = c := by
  simp only [all, List.foldl_cons, List.foldl_nil, copy]

theorem plain_name (f : Field) : ∀ p ∈ Spelling.ofString f.name, p.Plain := by
  have hname : ∀ c ∈ f.name.toList, 0x20 ≤ c.toNat := by
    cases f <;> simp [name]
  intro p hp
  obtain ⟨c, hc, rfl⟩ := List.mem_map.mp hp
  exact Or.inl (hname c hc)

variable [Scalar α]

/-- Whether the field of a configuration can be read. -/
def legible (c : Config α) : Field → Bool
  | tau => Scalar.isFinite c.tau
  | parameterTolerance => Scalar.isFinite c.parameterTolerance
  | objectiveTolerance => Scalar.isFinite c.objectiveTolerance
  | _ => true

theorem forall_legible_iff (c : Config α) : (∀ f ∈ all, legible c f = true) ↔ c.Legible := by
  simp only [all, List.forall_mem_cons, List.not_mem_nil, legible]
  constructor
  · rintro ⟨_, _, htau, hparameters, hobjective, _⟩
    exact ⟨htau, hparameters, hobjective⟩
  · rintro ⟨htau, hparameters, hobjective⟩
    simp [htau, hparameters, hobjective]

variable [JsonNumber α] [LawfulJsonNumber α]

theorem readable_get (c : Config α) (f : Field) : (f.get c).Readable := by
  cases f with
  | algorithm => exact Json.readable_ofString (by cases c.algorithm; simp [Algorithm.name])
  | damping => exact Json.readable_ofString (by cases c.damping <;> simp [DampingStyle.name])
  | tau => exact Json.readable_ofNumber _
  | parameterTolerance => exact Json.readable_ofNumber _
  | objectiveTolerance => exact Json.readable_ofNumber _
  | maxIterations => exact .number (Numeral.proper_digits _)
  | lowerBound => exact .array (List.forall_mem_map.mpr fun limit _ => Json.readable_ofLimit limit)
  | upperBound => exact .array (List.forall_mem_map.mpr fun limit _ => Json.readable_ofLimit limit)
  | display => exact Json.readable_ofString (by cases c.display <;> simp [DisplayLevel.name])
  | recordTrace => exact .bool _

/-- A field that is written and read is copied, without the limits that are not finite, or it cannot
be read. -/
theorem set?_get {c : Config α} (hc : c.ReadsBack) (d : Config α) (f : Field) :
    f.set? d (f.get c) = if legible c f then some (f.copy c.withFiniteBounds d) else none := by
  cases f with
  | algorithm =>
      have hchoice : (Json.ofString c.algorithm.name).toChoice? Algorithm.all Algorithm.name =
          some c.algorithm :=
        Json.toChoice?_ofString (by cases c.algorithm; decide)
      rw [get, set?, hchoice]
      rfl
  | damping =>
      have hchoice : (Json.ofString c.damping.name).toChoice? DampingStyle.all DampingStyle.name =
          some c.damping :=
        Json.toChoice?_ofString (by cases c.damping <;> decide)
      rw [get, set?, hchoice]
      rfl
  | tau =>
      rw [get, set?, Json.toNumber?_ofNumber hc.tau, legible]
      split <;> rfl
  | parameterTolerance =>
      rw [get, set?, Json.toNumber?_ofNumber hc.parameterTolerance, legible]
      split <;> rfl
  | objectiveTolerance =>
      rw [get, set?, Json.toNumber?_ofNumber hc.objectiveTolerance, legible]
      split <;> rfl
  | maxIterations =>
      rw [get, set?, Json.toNat?_ofNat hc.maxIterations]
      rfl
  | lowerBound =>
      rw [get, set?, Json.toLimits?_ofLimits hc.lower]
      rfl
  | upperBound =>
      rw [get, set?, Json.toLimits?_ofLimits hc.upper]
      rfl
  | display =>
      have hchoice : (Json.ofString c.display.name).toChoice? DisplayLevel.all DisplayLevel.name =
          some c.display :=
        Json.toChoice?_ofString (by cases c.display <;> decide)
      rw [get, set?, hchoice]
      rfl
  | recordTrace => rfl

end Field

section Overlay

variable [JsonNumber α]

/-- A member with the name of a field that has not been given sets it. -/
theorem overlay?_cons {key : Spelling} {f : Field} (hkey : key.text? = some f.name) (v : Json)
    (given : List Field) (d : Config α) (rest : List (Spelling × Json)) :
    overlay? given d ((key, v) :: rest) =
      if f ∈ given then none else (f.set? d v).bind fun d => overlay? (f :: given) d rest := by
  simp only [overlay?, hkey, Option.bind_eq_bind, Option.bind_some, Field.ofName?_name]

/-- Members with the names of different fields, none of them given before, set one after the
other. -/
theorem overlay?_fields {given fields : List Field} (value : Field → Json) (d : Config α)
    (hnodup : fields.Nodup) (hnew : ∀ f ∈ fields, f ∉ given) :
    overlay? given d (fields.map fun f => (Spelling.ofString f.name, value f)) =
      fields.foldlM (fun d f => f.set? d (value f)) d := by
  induction fields generalizing given d with
  | nil => rfl
  | cons f fields ih =>
      obtain ⟨hfirst, hnodup⟩ := List.nodup_cons.mp hnodup
      rw [List.map_cons, overlay?_cons (Spelling.text?_ofString _),
        if_neg (hnew f List.mem_cons_self), List.foldlM_cons]
      congr 1
      funext d'
      refine ih d' hnodup fun g hg => ?_
      rw [List.mem_cons, not_or]
      refine ⟨?_, hnew g (List.mem_cons_of_mem f hg)⟩
      rintro rfl
      exact hfirst hg

end Overlay

variable [Scalar α] [JsonNumber α] [LawfulJsonNumber α]

theorem readable_toJson (c : Config α) : c.toJson.Readable := by
  refine .object ?_ ?_
  · intro m hm
    obtain ⟨f, _, rfl⟩ := List.mem_map.mp hm
    exact f.plain_name
  · intro m hm
    obtain ⟨f, _, rfl⟩ := List.mem_map.mp hm
    exact f.readable_get c

/-- What is read are the fields that were written, one after the other. -/
theorem ofJson?_parse?_text (c : Config α) :
    (Json.parse? c.text).bind ofJson? =
      Field.all.foldlM (fun d f => f.set? d (f.get c)) (standard : Config α) := by
  rw [text, Json.parse?_render c.readable_toJson]
  exact overlay?_fields (fun f => f.get c) standard (by decide) fun f _ => List.not_mem_nil

theorem foldlM_set?_of_legible {c : Config α} (hc : c.ReadsBack) {fields : List Field}
    (hlegible : ∀ f ∈ fields, Field.legible c f = true) (d : Config α) :
    fields.foldlM (fun d f => f.set? d (f.get c)) d =
      some (fields.foldl (fun d f => f.copy c.withFiniteBounds d) d) := by
  induction fields generalizing d with
  | nil => rfl
  | cons f fields ih =>
      rw [List.foldlM_cons, f.set?_get hc, if_pos (hlegible f List.mem_cons_self)]
      exact ih (fun g hg => hlegible g (List.mem_cons_of_mem f hg)) _

/-- A single field that cannot be read is enough for the whole not to be read. -/
theorem foldlM_set?_of_illegible {c : Config α} (hc : c.ReadsBack) {fields : List Field}
    {f : Field} (hf : f ∈ fields) (hillegible : Field.legible c f = false) (d : Config α) :
    fields.foldlM (fun d f => f.set? d (f.get c)) d = none := by
  induction fields generalizing d with
  | nil => cases hf
  | cons g fields ih =>
      rw [List.foldlM_cons, g.set?_get hc]
      cases hlegible : Field.legible c g with
      | false => rfl
      | true =>
          rcases List.mem_cons.mp hf with rfl | hrest
          · rw [hillegible] at hlegible
            cases hlegible
          · exact ih hrest _

/-- A configuration whose damping scale and tolerances are finite is read without the limits that
are not. -/
theorem ofText_text_of_legible {c : Config α} (hc : c.ReadsBack) (hlegible : c.Legible) :
    ofText c.text = .ok c.withFiniteBounds := by
  rw [ofText, ofJson?_parse?_text,
    foldlM_set?_of_legible hc ((Field.forall_legible_iff c).mpr hlegible), Field.foldl_copy]

/-- Any other cannot be read. -/
theorem ofText_text_of_illegible {c : Config α} (hc : c.ReadsBack) (hillegible : ¬c.Legible) :
    (ofText c.text : Except (Fault α) (Config α)) = .error .unreadable := by
  obtain ⟨f, hf, hfalse⟩ : ∃ f ∈ Field.all, Field.legible c f = false := by
    by_contra hall
    refine hillegible ((Field.forall_legible_iff c).mp fun f hf => ?_)
    cases hvalue : Field.legible c f with
    | false => exact absurd ⟨f, hf, hvalue⟩ hall
    | true => rfl
  rw [ofText, ofJson?_parse?_text, foldlM_set?_of_illegible hc hf hfalse]

omit [LawfulJsonNumber α] in
/-- What is left after reading reads back if it did before. -/
theorem ReadsBack.withFiniteBounds {c : Config α} (hc : c.ReadsBack) :
    c.withFiniteBounds.ReadsBack := by
  have hkept : ∀ (limits : List (Option α)) (x : α),
      some x ∈ limits.map finiteLimit → some x ∈ limits := by
    intro limits x hx
    obtain ⟨limit, hlimit, hfinite⟩ := List.mem_map.mp hx
    rwa [eq_of_finiteLimit hfinite] at hlimit
  exact ⟨hc.tau, hc.parameterTolerance, hc.objectiveTolerance,
    fun x hx => hc.lower x (hkept _ x hx), fun x hx => hc.upper x (hkept _ x hx),
    hc.maxIterations⟩

end Config

end LeastSquares
