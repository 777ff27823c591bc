import Mathlib
import LeastSquares.Proofs.Json.Tokens

/-! # The grammar of JSON

All the ways to write a value. White space may stand around values and keys, characters of a string
may be escaped, and hexadecimal digits and the letter in front of a power of ten may be small or
capital. Whichever way a value is written, it falls into the same tokens.
-/

namespace LeastSquares

open Decimal

namespace Json

def Blank (cs : List Char) : Prop := ∀ c ∈ cs, c ∈ [' ', '\t', '\n', '\r']

/-- The letters of short escapes with the characters that they stand for. -/
def escapes : List (Char × Char) :=
  [('"', '"'), ('\\', '\\'), ('/', '/'), ('b', '\x08'), ('f', '\x0c'), ('n', '\n'), ('r', '\r'),
    ('t', '\t')]

/-- The hexadecimal digits with the numbers that they stand for. -/
def hexDigits : List (Char × Nat) :=
  "0123456789abcdef".toList.zipIdx ++ "ABCDEF".toList.zipIdx 10

end Json

inductive Piece.WrittenAs : Piece → List Char → Prop
  | char {c : Char} (hcontrol : ¬c.toNat < 0x20) (hquote : c ≠ '"') (hescape : c ≠ '\\') :
      WrittenAs (.char c) [c]
  | escape {e c : Char} (h : (e, c) ∈ Json.escapes) : WrittenAs (.char c) ['\\', e]
  | unit {a b c d : Char × Nat} (ha : a ∈ Json.hexDigits) (hb : b ∈ Json.hexDigits)
      (hc : c ∈ Json.hexDigits) (hd : d ∈ Json.hexDigits) :
      WrittenAs (.unit (((a.2 * 16 + b.2) * 16 + c.2) * 16 + d.2))
        ['\\', 'u', a.1, b.1, c.1, d.1]

inductive Spelling.WrittenAs : Spelling → List Char → Prop
  | nil : WrittenAs [] []
  | cons {p : Piece} {s : Spelling} {cs rest : List Char} (hp : p.WrittenAs cs)
      (hs : WrittenAs s rest) : WrittenAs (p :: s) (cs ++ rest)

namespace Json

mutual

/-- The ways to write a value. -/
inductive WrittenAs : Json → List Char → Prop
  | null : WrittenAs .null "null".toList
  | true : WrittenAs (.bool true) "true".toList
  | false : WrittenAs (.bool false) "false".toList
  | number {n : Numeral} {letter : Char} (hn : n.Proper) (hletter : Numeral.IsPowerLetter letter) :
      WrittenAs (.number n) (n.charsWith letter)
  | string {s : Spelling} {cs : List Char} (hs : s.WrittenAs cs) :
      WrittenAs (.string s) ('"' :: cs ++ ['"'])
  | noItems {blanks : List Char} (hblanks : Blank blanks) :
      WrittenAs (.array []) ('[' :: blanks ++ [']'])
  | items {v : Json} {items : List Json} {cs : List Char} (hitems : ItemsWrittenAs v items cs) :
      WrittenAs (.array (v :: items)) ('[' :: cs ++ [']'])
  | noMembers {blanks : List Char} (hblanks : Blank blanks) :
      WrittenAs (.object []) ('{' :: blanks ++ ['}'])
  | members {m : Spelling × Json} {members : List (Spelling × Json)} {cs : List Char}
      (hmembers : MembersWrittenAs m members cs) :
      WrittenAs (.object (m :: members)) ('{' :: cs ++ ['}'])

/-- The ways to write a value with white space around it. -/
inductive SpacedAs : Json → List Char → Prop
  | spaced {v : Json} {before cs after : List Char} (hbefore : Blank before)
      (hv : WrittenAs v cs) (hafter : Blank after) : SpacedAs v (before ++ cs ++ after)

/-- The ways to write a first item and those that follow it. -/
inductive ItemsWrittenAs : Json → List Json → List Char → Prop
  | last {v : Json} {cs : List Char} (hv : SpacedAs v cs) : ItemsWrittenAs v [] cs
  | more {v w : Json} {items : List Json} {cs rest : List Char} (hv : SpacedAs v cs)
      (hrest : ItemsWrittenAs w items rest) : ItemsWrittenAs v (w :: items) (cs ++ ',' :: rest)

/-- The ways to write a first member and those that follow it. A key is written like a string. -/
inductive MembersWrittenAs : Spelling × Json → List (Spelling × Json) → List Char → Prop
  | last {key : Spelling} {v : Json} {name cs : List Char} (hkey : SpacedAs (.string key) name)
      (hv : SpacedAs v cs) : MembersWrittenAs (key, v) [] (name ++ ':' :: cs)
  | more {key : Spelling} {v : Json} {m : Spelling × Json} {members : List (Spelling × Json)}
      {name cs rest : List Char} (hkey : SpacedAs (.string key) name) (hv : SpacedAs v cs)
      (hrest : MembersWrittenAs m members rest) :
      MembersWrittenAs (key, v) (m :: members) (name ++ ':' :: cs ++ ',' :: rest)

end

theorem tokens?_blank {blanks : List Char} (hblanks : Blank blanks) (rest : List Char) :
    tokens? (blanks ++ rest) = tokens? rest := by
  induction blanks with
  | nil => rfl
  | cons c blanks ih =>
      obtain ⟨hc, hblanks⟩ := List.forall_mem_cons.mp hblanks
      have hspace : isSpace c = true := by
        simpa [isSpace, or_assoc] using hc
      rw [List.cons_append, tokens?_space hspace, ih hblanks]

theorem Blank.delimited {blanks rest : List Char} (hblanks : Blank blanks)
    (hrest : Delimited rest) : Delimited (blanks ++ rest) := by
  cases blanks with
  | nil => exact hrest
  | cons c blanks =>
      have hc := hblanks c List.mem_cons_self
      have hplain : ∀ c ∈ [' ', '\t', '\n', '\r'], c.isAlpha = false ∧ inNumeral c = false := by
        simp [inNumeral]
      exact delimited_cons (hplain c hc).1 (hplain c hc).2 _

theorem escaped?_of_mem {e c : Char} (h : (e, c) ∈ escapes) : e ≠ 'u' ∧ escaped? e = some c := by
  have hall : ∀ p ∈ escapes, p.1 ≠ 'u' ∧ escaped? p.1 = some p.2 := by decide
  exact hall _ h

theorem hexDigit?_of_mem {d : Char × Nat} (hd : d ∈ hexDigits) :
    hexDigit? d.1 = some d.2 ∧ d.1 ≠ '"' ∧ d.1 ≠ '\\' := by
  revert d
  decide

/-- No piece ends a string before its closing quote. -/
theorem splitString?_piece {p : Piece} {cs : List Char} (hp : p.WrittenAs cs) (rest : List Char) :
    splitString? (cs ++ rest) =
      (splitString? rest).map fun split => (cs ++ split.1, split.2) := by
  cases hp with
  | char hcontrol hquote hescape => exact splitString?_char hquote hescape rest
  | escape h => exact splitString?_escape _ rest
  | unit ha hb hc hd =>
      have hdigit : ∀ d ∈ hexDigits, ∀ rest, splitString? (d.1 :: rest) =
          (splitString? rest).map fun split => (d.1 :: split.1, split.2) := fun d hd rest =>
        splitString?_char (hexDigit?_of_mem hd).2.1 (hexDigit?_of_mem hd).2.2 rest
      simp only [List.cons_append, List.nil_append]
      rw [splitString?_escape, hdigit _ ha, hdigit _ hb, hdigit _ hc, hdigit _ hd]
      simp only [Option.map_map]
      rfl

theorem spelling?_piece {p : Piece} {cs : List Char} (hp : p.WrittenAs cs) (rest : List Char) :
    spelling? (cs ++ rest) = (spelling? rest).map (p :: ·) := by
  cases hp with
  | char hcontrol hquote hescape => exact spelling?_char hescape hcontrol rest
  | escape h => exact spelling?_escape (escaped?_of_mem h).1 (escaped?_of_mem h).2 rest
  | unit ha hb hc hd =>
      refine spelling?_unit ?_ rest
      unfold hexUnit?
      rw [(hexDigit?_of_mem ha).1, (hexDigit?_of_mem hb).1, (hexDigit?_of_mem hc).1,
        (hexDigit?_of_mem hd).1]
      rfl

theorem splitString?_of_writtenAs {s : Spelling} {cs : List Char} (hs : s.WrittenAs cs)
    (rest : List Char) : splitString? (cs ++ '"' :: rest) = some (cs, rest) := by
  induction hs with
  | nil => rfl
  | cons hp _ ih =>
      rw [List.append_assoc, splitString?_piece hp, ih]
      rfl

theorem spelling?_of_writtenAs {s : Spelling} {cs : List Char} (hs : s.WrittenAs cs) :
    spelling? cs = some s := by
  induction hs with
  | nil => rfl
  | cons hp _ ih =>
      rw [spelling?_piece hp, ih]
      rfl

theorem tokens?_string {s : Spelling} {cs : List Char} (hs : s.WrittenAs cs) (rest : List Char) :
    tokens? ('"' :: cs ++ ['"'] ++ rest) = (tokens? rest).map (.string s :: ·) := by
  rw [List.append_assoc]
  exact tokens?_quote (splitString?_of_writtenAs hs rest) (spelling?_of_writtenAs hs)

/-- Characters that fall into these tokens, whatever follows. -/
def Reads (cs : List Char) (ts : List Token) : Prop :=
  ∀ rest, Delimited rest → tokens? (cs ++ rest) = (tokens? rest).map (ts ++ ·)

theorem isAlpha_of_word? {letters : List Char} {v : Json} (hv : word? letters = some v) :
    ∀ c ∈ letters, c.isAlpha = true := by
  have hwords : letters = "null".toList ∨ letters = "true".toList ∨ letters = "false".toList := by
    by_contra hother
    simp_all [word?]
  rcases hwords with rfl | rfl | rfl <;> simp

theorem Reads.word {letters : List Char} {v : Json} (hv : word? letters = some v) :
    Reads letters [.atom v] := by
  have halpha := isAlpha_of_word? hv
  cases letters with
  | nil => cases hv
  | cons c letters => exact fun _ hrest => tokens?_word halpha hv hrest

/-- Two brackets around what has been read. -/
theorem Reads.enclosed {cs : List Char} {ts : List Token} (hcs : Reads cs ts) {left right : Char}
    {opening closing : Token} (hleft : punctuation? left = some opening)
    (hright : punctuation? right = some closing) (hdelimited : ∀ rest, Delimited (right :: rest)) :
    Reads (left :: cs ++ [right]) (opening :: ts ++ [closing]) := by
  intro rest _
  simp only [List.cons_append, List.append_assoc, List.nil_append]
  rw [tokens?_punctuation hleft, hcs _ (hdelimited rest), tokens?_punctuation hright]
  simp [Function.comp_def]

theorem Reads.blank {blanks : List Char} (hblanks : Blank blanks) : Reads blanks [] := by
  intro rest _
  rw [tokens?_blank hblanks]
  simp

theorem Reads.spaced {before cs after : List Char} {ts : List Token} (hbefore : Blank before)
    (hcs : Reads cs ts) (hafter : Blank after) : Reads (before ++ cs ++ after) ts := by
  intro rest hrest
  simp only [List.append_assoc]
  rw [tokens?_blank hbefore, hcs _ (hafter.delimited hrest), tokens?_blank hafter]

/-- A mark between two texts that have been read. -/
theorem Reads.joined {cs cs' : List Char} {ts ts' : List Token} (hcs : Reads cs ts)
    (hcs' : Reads cs' ts') {mark : Char} {t : Token} (hmark : punctuation? mark = some t)
    (hdelimited : ∀ rest, Delimited (mark :: rest)) :
    Reads (cs ++ mark :: cs') (ts ++ t :: ts') := by
  intro rest hrest
  simp only [List.cons_append, List.append_assoc]
  rw [hcs _ (hdelimited _), tokens?_punctuation hmark, hcs' _ hrest]
  simp [Function.comp_def]

theorem delimited_mark {mark : Char} (hmark : mark ∈ [']', '}', ',', ':']) (rest : List Char) :
    Delimited (mark :: rest) := by
  have hplain : ∀ c ∈ [']', '}', ',', ':'], c.isAlpha = false ∧ inNumeral c = false := by
    simp [inNumeral]
  exact delimited_cons (hplain mark hmark).1 (hplain mark hmark).2 rest

theorem Reads.member {name cs : List Char} {key : Token} {ts : List Token}
    (hname : Reads name [key]) (hcs : Reads cs ts) :
    Reads (name ++ ':' :: cs) (key :: .colon :: ts) :=
  hname.joined hcs rfl (delimited_mark (by simp))

mutual

theorem WrittenAs.reads {v : Json} {cs : List Char} : v.WrittenAs cs → Reads cs (tokens v)
  | .null => Reads.word rfl
  | .true => Reads.word rfl
  | .false => Reads.word rfl
  | .number hn hletter => fun _ hrest => tokens?_numeral hletter hn hrest
  | .string hs => fun rest _ => tokens?_string hs rest
  | .noItems hblanks => (Reads.blank hblanks).enclosed rfl rfl (delimited_mark (by simp))
  | .items hitems => hitems.reads.enclosed rfl rfl (delimited_mark (by simp))
  | .noMembers hblanks => (Reads.blank hblanks).enclosed rfl rfl (delimited_mark (by simp))
  | .members hmembers => hmembers.reads.enclosed rfl rfl (delimited_mark (by simp))

theorem SpacedAs.reads {v : Json} {cs : List Char} : v.SpacedAs cs → Reads cs (tokens v)
  | .spaced hbefore hv hafter => hv.reads.spaced hbefore hafter

theorem ItemsWrittenAs.reads {v : Json} {items : List Json} {cs : List Char} :
    ItemsWrittenAs v items cs → Reads cs (tokens v ++ itemTokens items)
  | .last hv => by simpa [itemTokens] using hv.reads
  | .more hv hrest => hv.reads.joined hrest.reads rfl (delimited_mark (by simp))

theorem MembersWrittenAs.reads {m : Spelling × Json} {members : List (Spelling × Json)}
    {cs : List Char} : MembersWrittenAs m members cs →
      Reads cs (.string m.1 :: .colon :: tokens m.2 ++ memberTokens members)
  | .last hkey hv => by simpa [memberTokens] using hkey.reads.member hv.reads
  | .more hkey hv hrest =>
      (hkey.reads.member hv.reads).joined hrest.reads rfl (delimited_mark (by simp))

end

/-- A text that writes a value, with white space around it or not, falls into its tokens. -/
theorem tokens?_of_spacedAs {v : Json} {cs : List Char} (hv : v.SpacedAs cs) :
    tokens? cs = some (tokens v) := by
  have hreads := hv.reads [] (by rintro c ⟨⟩)
  rw [List.append_nil] at hreads
  rw [hreads]
  simp [tokens?]

end Json

end LeastSquares
