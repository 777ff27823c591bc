import Mathlib
import LeastSquares.Proofs.Config.Fields

/-! # Configurations laid over the defaults

An object tells of some fields of a configuration, in any order and among members with other names.
Reading finds the only configuration that has these fields as told and all others by default. It
fails if a field is told of twice, if a value is of the wrong kind, or if a key is no text at all,
even a key that means nothing.
-/

namespace LeastSquares.Config

variable {α : Type}

/-- The fields that members name, with the values that they give them. Other members give none. -/
def assignments (members : List (Spelling × Json)) : List (Field × Json) :=
  members.flatMap fun m =>
    (Field.all.filter fun f => m.1.text? = some f.name).map fun f => (f, m.2)

/-- A configuration has the fields that are assigned, and all others from the one below. -/
structure Overlays [JsonNumber α] (assigned : List (Field × Json)) (below c : Config α) : Prop where
  told : ∀ p ∈ assigned, p.1.Tells c p.2
  kept : ∀ f ∉ assigned.map Prod.fst, f.Agree c below

/-- All keys are texts. -/
def KeyedByTexts (members : List (Spelling × Json)) : Prop :=
  ∀ m ∈ members, ∃ text, m.1.text? = some text

/-- No field is assigned twice. -/
def AssignsOnce (members : List (Spelling × Json)) : Prop :=
  ((assignments members).map Prod.fst).Nodup

/-- Every assigned value is of the kind of its field. -/
def WellTyped (α : Type) [JsonNumber α] (members : List (Spelling × Json)) : Prop :=
  ∀ p ∈ assignments members, ∃ c : Config α, p.1.Tells c p.2

section Members

variable {key : Spelling} {text : String} (hkey : key.text? = some text)

include hkey

theorem keyedByTexts_cons_iff (v : Json) (members : List (Spelling × Json)) :
    KeyedByTexts ((key, v) :: members) ↔ KeyedByTexts members := by
  unfold KeyedByTexts
  rw [List.forall_mem_cons]
  exact and_iff_right ⟨text, hkey⟩

theorem assignments_cons_of_unknown (hname : Field.ofName? text = none) (v : Json)
    (members : List (Spelling × Json)) :
    assignments ((key, v) :: members) = assignments members := by
  have hnone : (Field.all.filter fun f => text = f.name) = [] := by
    rw [List.filter_eq_nil_iff]
    intro f hf hsame
    exact List.find?_eq_none.mp hname f hf (by simpa [eq_comm] using hsame)
  simp [assignments, hkey, hnone]

theorem overlay?_cons_of_unknown [JsonNumber α] (hname : Field.ofName? text = none) (v : Json)
    (members : List (Spelling × Json)) (taken : List Field) (below : Config α) :
    overlay? taken below ((key, v) :: members) = overlay? taken below members := by
  simp only [overlay?, hkey, Option.bind_eq_bind, Option.bind_some, hname]

end Members

theorem assignments_cons {key : Spelling} {f : Field} (hkey : key.text? = some f.name) (v : Json)
    (members : List (Spelling × Json)) :
    assignments ((key, v) :: members) = (f, v) :: assignments members := by
  have hsingle : (Field.all.filter fun g => f.name = g.name) = [f] := by
    cases f <;> decide
  simp [assignments, hkey, hsingle]

section Reading

variable [JsonNumber α]

theorem overlays_nil_iff {below c : Config α} : Overlays [] below c ↔ c = below := by
  constructor
  · exact fun h => Field.eq_of_agree fun f => h.kept f List.not_mem_nil
  · rintro rfl
    exact ⟨nofun, fun f _ => Field.agree_refl c f⟩

/-- The first field is set, and the others are laid over what comes of it. -/
theorem overlays_cons_iff {f : Field} {v : Json} {assigned : List (Field × Json)}
    (hf : f ∉ assigned.map Prod.fst) {below c : Config α} :
    Overlays ((f, v) :: assigned) below c ↔
      ∃ d, f.set? below v = some d ∧ Overlays assigned d c := by
  simp only [Field.set?_eq_some_iff]
  constructor
  · intro h
    obtain ⟨hfirst, hrest⟩ := List.forall_mem_cons.mp h.told
    have hcopy := Field.agree_copy c below f
    refine ⟨f.copy c below, ⟨(Field.tells_congr hcopy v).mpr hfirst,
      fun g hne => Field.agree_copy_of_ne c below hne⟩, hrest, fun g hg => ?_⟩
    by_cases hgf : g = f
    · rw [hgf]
      exact hcopy.symm
    · have hkept : g.Agree c below := h.kept g (List.not_mem_cons_of_ne_of_not_mem hgf hg)
      exact hkept.trans (Field.agree_copy_of_ne c below hgf).symm
  · rintro ⟨d, ⟨htells, hset⟩, h⟩
    have hfirst : f.Tells c v := (Field.tells_congr (h.kept f hf) v).mpr htells
    refine ⟨List.forall_mem_cons.mpr ⟨hfirst, h.told⟩, fun g hg => ?_⟩
    rw [List.map_cons, List.mem_cons, not_or] at hg
    exact (h.kept g hg.2).trans (hset g hg.1)

theorem overlays_iff_of_perm {assigned assigned' : List (Field × Json)}
    (hperm : assigned'.Perm assigned) {below c : Config α} :
    Overlays assigned' below c ↔ Overlays assigned below c := by
  have hfields := fun f => (hperm.map Prod.fst).mem_iff (a := f)
  constructor
  · exact fun h => ⟨fun p hp => h.told p (hperm.mem_iff.mpr hp),
      fun f hf => h.kept f (mt (hfields f).mp hf)⟩
  · exact fun h => ⟨fun p hp => h.told p (hperm.mem_iff.mp hp),
      fun f hf => h.kept f (mt (hfields f).mpr hf)⟩

theorem exists_overlays {assigned : List (Field × Json)} (honce : (assigned.map Prod.fst).Nodup)
    (htyped : ∀ p ∈ assigned, ∃ c : Config α, p.1.Tells c p.2) (below : Config α) :
    ∃ c, Overlays assigned below c := by
  induction assigned generalizing below with
  | nil => exact ⟨below, overlays_nil_iff.mpr rfl⟩
  | cons p assigned ih =>
      obtain ⟨f, v⟩ := p
      obtain ⟨hf, honce⟩ := List.nodup_cons.mp honce
      obtain ⟨⟨d, hd⟩, htyped⟩ := List.forall_mem_cons.mp htyped
      have hset : f.set? below v = some (f.copy d below) := Field.set?_eq_some_iff.mpr
        ⟨(Field.tells_congr (Field.agree_copy d below f) v).mpr hd,
          fun g hne => Field.agree_copy_of_ne d below hne⟩
      obtain ⟨c, hc⟩ := ih honce htyped (f.copy d below)
      exact ⟨c, (overlays_cons_iff hf).mpr ⟨_, hset, hc⟩⟩

/-- What members come to when some fields are taken, that is, have been assigned before them. -/
theorem overlay?_eq_some_iff {members : List (Spelling × Json)} {taken : List Field}
    {below c : Config α} :
    overlay? taken below members = some c ↔
      KeyedByTexts members ∧ AssignsOnce members ∧
        (∀ f ∈ (assignments members).map Prod.fst, f ∉ taken) ∧
        Overlays (assignments members) below c := by
  induction members generalizing taken below with
  | nil =>
      rw [overlay?, Option.some.injEq, eq_comm, ← overlays_nil_iff]
      simp [KeyedByTexts, AssignsOnce, assignments]
  | cons m members ih =>
      obtain ⟨key, v⟩ := m
      cases hkey : key.text? with
      | none =>
          -- The text of a key is asked for before it is known whether the key means anything.
          constructor
          · intro hread
            simp [overlay?, hkey] at hread
          · rintro ⟨htexts, _⟩
            obtain ⟨text, htext⟩ := htexts _ List.mem_cons_self
            cases hkey.symm.trans htext
      | some text =>
          rw [keyedByTexts_cons_iff hkey]
          cases hname : Field.ofName? text with
          | none =>
              rw [overlay?_cons_of_unknown hkey hname, ih, AssignsOnce, AssignsOnce,
                assignments_cons_of_unknown hkey hname]
          | some f =>
              obtain rfl := Field.ofName?_eq_some_iff.mp hname
              rw [overlay?_cons hkey, AssignsOnce, assignments_cons hkey, List.map_cons,
                List.nodup_cons, List.forall_mem_cons]
              split
              next htaken => simp [htaken]
              next hfree =>
                simp only [Option.bind_eq_some_iff, ih]
                constructor
                · rintro ⟨d, hset, htexts, honce, hnew, hover⟩
                  have hf : f ∉ (assignments members).map Prod.fst :=
                    fun hmem => hnew f hmem List.mem_cons_self
                  exact ⟨htexts, ⟨hf, honce⟩,
                    ⟨hfree, fun g hg htaken => hnew g hg (List.mem_cons_of_mem f htaken)⟩,
                    (overlays_cons_iff hf).mpr ⟨d, hset, hover⟩⟩
                · rintro ⟨htexts, ⟨hf, honce⟩, ⟨_, hnew⟩, hover⟩
                  obtain ⟨d, hset, hover⟩ := (overlays_cons_iff hf).mp hover
                  refine ⟨d, hset, htexts, honce, fun g hg htaken => ?_, hover⟩
                  rcases List.mem_cons.mp htaken with rfl | htaken
                  · exact hf hg
                  · exact hnew g hg htaken

variable [Scalar α] {members : List (Spelling × Json)} {text : String}

/-- What is read from a text that writes an object. -/
theorem ofText_eq_ok_iff (htext : Json.SpacedAs (.object members) text.toList) {c : Config α} :
    ofText text = .ok c ↔
      KeyedByTexts members ∧ AssignsOnce members ∧ Overlays (assignments members) standard c := by
  have hread : (Json.parse? text).bind ofJson? = overlay? [] (standard : Config α) members := by
    rw [Json.parse?_of_spacedAs htext]
    rfl
  have hoverlay : ofText text = .ok c ↔ overlay? [] standard members = some c := by
    unfold ofText
    rw [hread]
    split
    next d hd => rw [hd, Except.ok.injEq, Option.some.injEq]
    next hnone => simp [hnone]
  rw [hoverlay, overlay?_eq_some_iff]
  simp

theorem eq_unreadable_of_ne_ok (h : ∀ c : Config α, ofText text ≠ .ok c) :
    (ofText text : Except (Fault α) (Config α)) = .error .unreadable := by
  unfold ofText at h ⊢
  split
  next c hc =>
    refine absurd ?_ (h c)
    rw [hc]
  · rfl

/-- Nothing but the configuration that is read tells two texts apart. -/
theorem ofText_congr {text' : String}
    (h : ∀ c : Config α, ofText text' = .ok c ↔ ofText text = .ok c) :
    (ofText text' : Except (Fault α) (Config α)) = ofText text := by
  by_cases hread : ∃ c : Config α, ofText text = .ok c
  · obtain ⟨c, hc⟩ := hread
    rw [hc, (h c).mpr hc]
  · have hnone : ∀ c : Config α, ofText text ≠ .ok c := fun c hc => hread ⟨c, hc⟩
    rw [eq_unreadable_of_ne_ok hnone,
      eq_unreadable_of_ne_ok fun c hc => hnone c ((h c).mp hc)]

theorem exists_ofText_eq_ok (htext : Json.SpacedAs (.object members) text.toList)
    (hkeys : KeyedByTexts members) (honce : AssignsOnce members)
    (htyped : WellTyped α members) :
    ∃ c : Config α, ofText text = .ok c ∧
      ∀ d, Overlays (assignments members) standard d ↔ d = c := by
  obtain ⟨c, hc⟩ := exists_overlays honce htyped standard
  have hread : ofText text = .ok c := (ofText_eq_ok_iff htext).mpr ⟨hkeys, honce, hc⟩
  refine ⟨c, hread, fun d => ⟨fun hd => ?_, ?_⟩⟩
  · have hread' : ofText text = .ok d := (ofText_eq_ok_iff htext).mpr ⟨hkeys, honce, hd⟩
    exact Except.ok.inj (hread'.symm.trans hread)
  · rintro rfl
    exact hc

theorem ofText_eq_of_perm {members' : List (Spelling × Json)} {text' : String}
    (htext : Json.SpacedAs (.object members) text.toList)
    (htext' : Json.SpacedAs (.object members') text'.toList) (hkeys : KeyedByTexts members)
    (hkeys' : KeyedByTexts members')
    (hperm : (assignments members').Perm (assignments members)) :
    (ofText text' : Except (Fault α) (Config α)) = ofText text := by
  refine ofText_congr fun c => ?_
  have honce : AssignsOnce members' ↔ AssignsOnce members := (hperm.map Prod.fst).nodup_iff
  rw [ofText_eq_ok_iff htext, ofText_eq_ok_iff htext', honce, overlays_iff_of_perm hperm]
  exact and_congr_left' (iff_of_true hkeys' hkeys)

theorem ofText_eq_unreadable (htext : Json.SpacedAs (.object members) text.toList)
    (hbad : ¬KeyedByTexts members ∨ ¬AssignsOnce members ∨ ¬WellTyped α members) :
    (ofText text : Except (Fault α) (Config α)) = .error .unreadable := by
  refine eq_unreadable_of_ne_ok fun c hc => ?_
  obtain ⟨hkeys, honce, hover⟩ := (ofText_eq_ok_iff htext).mp hc
  rcases hbad with hbad | hbad | hbad
  · exact hbad hkeys
  · exact hbad honce
  · exact hbad fun p hp => ⟨c, hover.told p hp⟩

/-- An object is read as the defaults with the fields that it assigns in place of theirs. So neither
the order of its members nor members with other names matter. It cannot be read if it assigns a
field twice, if it gives a field a value of the wrong kind, or if one of its keys is no text. -/
theorem ofText_overlays (htext : Json.SpacedAs (.object members) text.toList) :
    (KeyedByTexts members → AssignsOnce members → WellTyped α members →
      ∃ c : Config α, ofText text = .ok c ∧
        ∀ d, Overlays (assignments members) standard d ↔ d = c) ∧
    (KeyedByTexts members → ∀ (members' : List (Spelling × Json)) (text' : String),
      Json.SpacedAs (.object members') text'.toList → KeyedByTexts members' →
      (assignments members').Perm (assignments members) →
      (ofText text' : Except (Fault α) (Config α)) = ofText text) ∧
    (¬KeyedByTexts members ∨ ¬AssignsOnce members ∨ ¬WellTyped α members →
      (ofText text : Except (Fault α) (Config α)) = .error .unreadable) :=
  ⟨exists_ofText_eq_ok htext,
    fun hkeys _ _ htext' hkeys' hperm => ofText_eq_of_perm htext htext' hkeys hkeys' hperm,
    ofText_eq_unreadable htext⟩

/-- White space, a key in escapes, a capital in front of a power of ten, and a member that is passed
over although it holds a key that is no text. -/
theorem ofText_overlays_past_unknown_member :
    let text := " \x7b\"\\u0074au\": 2E0,\"x\":[\x7b\"\\udead\":null\x7d]\x7d"
    let tau : Spelling := [.unit 0x74, .char 'a', .char 'u']
    let two : Json := .number ⟨false, [2], [], some ⟨.bare, [0]⟩⟩
    let members : List (Spelling × Json) :=
      [(tau, two), ([.char 'x'], .array [.object [([.unit 0xdead], .null)]])]
    Json.SpacedAs (.object members) text.toList ∧
      ofText text = .ok { (standard : Config Float) with tau := 2.0 } := by
  intro text tau two members
  have hnone : Json.Blank [] := List.forall_mem_nil _
  have hblank : Json.Blank [' '] := by simp [Json.Blank]
  have htau := Json.writtenAs_spellingChars (s := tau) (by simp [tau, Piece.Plain])
  have hx := Json.writtenAs_spellingChars (s := [.char 'x']) (by simp [Piece.Plain])
  have hlone := Json.writtenAs_spellingChars (s := [.unit 0xdead]) (by simp [Piece.Plain])
  have htwo : two.WrittenAs ['2', 'E', '0'] :=
    @Json.WrittenAs.number ⟨false, [2], [], some ⟨.bare, [0]⟩⟩ 'E' ⟨rfl, by simp⟩ (Or.inr rfl)
  have hinner : Json.WrittenAs (.object [([.unit 0xdead], .null)]) _ :=
    .members (.last (.spaced hnone hlone hnone) (.spaced hnone .null hnone))
  have hspaced : Json.SpacedAs (.object members) _ :=
    .spaced hblank (.members (.more (.spaced hnone htau hnone) (.spaced hblank htwo hnone)
      (.last (.spaced hnone hx hnone)
        (.spaced hnone (.items (.last (.spaced hnone hinner hnone))) hnone)))) hnone
  have htext : Json.SpacedAs (.object members) text.toList := by
    convert hspaced using 1
    show " \x7b\"\\u0074au\": 2E0,\"x\":[\x7b\"\\udead\":null\x7d]\x7d".toList = _
    decide +kernel
  have hassigned : assignments members = [(.tau, two)] := by rfl
  have hkeys : KeyedByTexts members :=
    List.forall_mem_cons.mpr ⟨⟨"tau", by rfl⟩, List.forall_mem_singleton.mpr ⟨"x", by rfl⟩⟩
  have honce : AssignsOnce members := by
    rw [AssignsOnce, hassigned]
    exact List.nodup_singleton _
  let c : Config Float := { standard with tau := 2.0 }
  have htold : Field.tau.Tells c two := .number (by decide +kernel)
  have hover : Overlays (assignments members) standard c := by
    rw [hassigned]
    refine ⟨List.forall_mem_singleton.mpr htold, fun f hf => ?_⟩
    cases f with
    | tau => exact absurd (List.mem_singleton_self _) hf
    | _ => rfl
  have htyped : WellTyped Float members := fun p hp => ⟨c, hover.told p hp⟩
  obtain ⟨d, hread, honly⟩ := (ofText_overlays htext).1 hkeys honce htyped
  rw [hread, ← (honly c).mp hover]
  exact ⟨htext, rfl⟩

/-- A key with half of a pair alone is no text, and nothing can be read beside it. -/
theorem ofText_with_unpaired_key :
    let text := "\x7b\"\\udead\":1,\"tau\":2\x7d"
    let two : Json := .number ⟨false, [2], [], none⟩
    let members : List (Spelling × Json) :=
      [([.unit 0xdead], .number ⟨false, [1], [], none⟩), (Spelling.ofString "tau", two)]
    Json.SpacedAs (.object members) text.toList ∧ assignments members = [(.tau, two)] ∧
      AssignsOnce members ∧ WellTyped Float members ∧
      (ofText text : Except (Fault Float) (Config Float)) = .error .unreadable := by
  intro text two members
  have hnone : Json.Blank [] := List.forall_mem_nil _
  have hlone := Json.writtenAs_spellingChars (s := [.unit 0xdead]) (by simp [Piece.Plain])
  have htau := Json.writtenAs_spellingChars Field.tau.plain_name
  have hvalue : ∀ digit, Json.WrittenAs (.number ⟨false, [digit], [], none⟩) [digit.toChar] :=
    fun digit => @Json.WrittenAs.number ⟨false, [digit], [], none⟩ 'e' ⟨rfl, by simp⟩ (Or.inl rfl)
  have hspaced : Json.SpacedAs (.object members) _ :=
    .spaced hnone (.members (.more (.spaced hnone hlone hnone) (.spaced hnone (hvalue 1) hnone)
      (.last (.spaced hnone htau hnone) (.spaced hnone (hvalue 2) hnone)))) hnone
  have htext : Json.SpacedAs (.object members) text.toList := by
    convert hspaced using 1
    show "\x7b\"\\udead\":1,\"tau\":2\x7d".toList = _
    decide +kernel
  have hassigned : assignments members = [(.tau, two)] := by rfl
  have honce : AssignsOnce members := by
    rw [AssignsOnce, hassigned]
    exact List.nodup_singleton _
  have htyped : WellTyped Float members := by
    rw [WellTyped, hassigned]
    exact List.forall_mem_singleton.mpr
      ⟨{ standard with tau := 2.0 }, .number (by decide +kernel)⟩
  have hkeys : ¬KeyedByTexts members := by
    intro hkeys
    obtain ⟨name, hname⟩ := hkeys _ List.mem_cons_self
    cases hname
  exact ⟨htext, hassigned, honce, htyped, ofText_eq_unreadable htext (Or.inl hkeys)⟩

end Reading

end LeastSquares.Config
