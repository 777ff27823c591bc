import Mathlib
import LeastSquares.Json.Printer
import LeastSquares.Proofs.Json.Reading

/-! # Reading what was printed

The printer keeps to the grammar, at any depth of nesting. So a rendered value is read as itself.
-/

namespace LeastSquares

open Decimal

/-- A piece that the printer writes as the reader reads it: a unit of sixteen bits, or a character
that needs no unit for it. -/
def Piece.Plain : Piece → Prop
  | .char c => 0x20 ≤ c.toNat ∨ c ∈ ['\x08', '\x0c', '\n', '\r', '\t']
  | .unit u => u < 0x10000

namespace Json

/-- A value whose numerals keep to the grammar and whose strings are plain. -/
inductive Readable : Json → Prop
  | null : Readable .null
  | bool (b : Bool) : Readable (.bool b)
  | number {n : Numeral} (hn : n.Proper) : Readable (.number n)
  | string {s : Spelling} (hs : ∀ p ∈ s, p.Plain) : Readable (.string s)
  | array {items : List Json} (hitems : ∀ v ∈ items, Readable v) : Readable (.array items)
  | object {members : List (Spelling × Json)} (hkeys : ∀ m ∈ members, ∀ p ∈ m.1, p.Plain)
      (hvalues : ∀ m ∈ members, Readable m.2) : Readable (.object members)

theorem hexChar_mem {u : Nat} (hu : u < 16) : (hexChar u, u) ∈ hexDigits := by
  interval_cases u <;> decide

theorem writtenAs_unitChars {u : Nat} (hu : u < 0x10000) :
    (Piece.unit u).WrittenAs (unitChars u) := by
  have hdigit : ∀ u, (hexChar (u % 16), u % 16) ∈ hexDigits :=
    fun u => hexChar_mem (Nat.mod_lt u (by decide))
  have hwritten := Piece.WrittenAs.unit (hdigit (u / 4096)) (hdigit (u / 256)) (hdigit (u / 16))
    (hdigit u)
  have hsum : ((u / 4096 % 16 * 16 + u / 256 % 16) * 16 + u / 16 % 16) * 16 + u % 16 = u := by
    omega
  rwa [hsum] at hwritten

theorem writtenAs_pieceChars {p : Piece} (hp : p.Plain) : p.WrittenAs (pieceChars p) := by
  cases p with
  | unit u => exact writtenAs_unitChars hp
  | char c =>
      unfold pieceChars quotedChar
      dsimp only
      split
      case h_8 hquote hescape hback hfeed hline hreturn htab =>
        have hcontrol : ¬c.toNat < 0x20 := by
          rcases hp with hlarge | hlisted
          · omega
          · simp_all
        rw [if_neg hcontrol]
        exact .char hcontrol hquote hescape
      all_goals exact .escape (by decide)

theorem writtenAs_flatMap {s : Spelling} (hs : ∀ p ∈ s, p.Plain) :
    s.WrittenAs (s.flatMap pieceChars) := by
  induction s with
  | nil => exact .nil
  | cons p s ih =>
      exact .cons (writtenAs_pieceChars (hs p List.mem_cons_self))
        (ih fun q hq => hs q (List.mem_cons_of_mem p hq))

theorem writtenAs_spellingChars {s : Spelling} (hs : ∀ p ∈ s, p.Plain) :
    WrittenAs (.string s) (spellingChars s) :=
  .string (writtenAs_flatMap hs)

theorem blank_newline (depth : Nat) : Blank (newline depth) := by
  intro c hc
  rcases List.mem_cons.mp hc with rfl | hblank
  · simp
  · simp [List.eq_of_mem_replicate hblank]

/-- A value is written by its characters at any depth. -/
def Printed (v : Json) : Prop := ∀ depth, v.WrittenAs (chars depth v)

theorem itemsWrittenAs_itemChars {v : Json} {items : List Json} (hv : Printed v)
    (hitems : ∀ w ∈ items, Printed w) (depth : Nat) {blanks : List Char} (hblanks : Blank blanks) :
    ItemsWrittenAs v items (newline depth ++ chars depth v ++ itemChars depth items ++ blanks) := by
  induction items generalizing v with
  | nil =>
      have hlast := ItemsWrittenAs.last (.spaced (blank_newline depth) (hv depth) hblanks)
      simpa [itemChars] using hlast
  | cons w items ih =>
      have hrest := ih (hitems w List.mem_cons_self)
        fun u hu => hitems u (List.mem_cons_of_mem w hu)
      have hmore := hrest.more (.spaced (blank_newline depth) (hv depth) (List.forall_mem_nil _))
      simpa [itemChars] using hmore

theorem membersWrittenAs_memberChars {m : Spelling × Json} {members : List (Spelling × Json)}
    (hkey : ∀ p ∈ m.1, p.Plain) (hkeys : ∀ m ∈ members, ∀ p ∈ m.1, p.Plain) (hv : Printed m.2)
    (hvalues : ∀ m ∈ members, Printed m.2) (depth : Nat) {blanks : List Char}
    (hblanks : Blank blanks) :
    MembersWrittenAs m members (newline depth ++ spellingChars m.1 ++ [':', ' '] ++
      chars depth m.2 ++ memberChars depth members ++ blanks) := by
  have hblank : Blank [' '] := by simp [Blank]
  induction members generalizing m with
  | nil =>
      have hlast := MembersWrittenAs.last
        (.spaced (blank_newline depth) (writtenAs_spellingChars hkey) (List.forall_mem_nil _))
        (.spaced hblank (hv depth) hblanks)
      simpa [memberChars] using hlast
  | cons m' members ih =>
      have hrest := ih (hkeys m' List.mem_cons_self)
        (fun m hm => hkeys m (List.mem_cons_of_mem m' hm)) (hvalues m' List.mem_cons_self)
        fun m hm => hvalues m (List.mem_cons_of_mem m' hm)
      have hmore := hrest.more
        (.spaced (blank_newline depth) (writtenAs_spellingChars hkey) (List.forall_mem_nil _))
        (.spaced hblank (hv depth) (List.forall_mem_nil _))
      simpa [memberChars] using hmore

theorem printed_array {items : List Json} (hitems : ∀ v ∈ items, Printed v) :
    Printed (.array items) := by
  intro depth
  cases items with
  | nil => exact .noItems (List.forall_mem_nil _)
  | cons v items =>
      have hwritten := itemsWrittenAs_itemChars (hitems v List.mem_cons_self)
        (fun w hw => hitems w (List.mem_cons_of_mem v hw)) (depth + 1) (blank_newline depth)
      rw [chars]
      exact .items hwritten

theorem printed_object {members : List (Spelling × Json)}
    (hkeys : ∀ m ∈ members, ∀ p ∈ m.1, p.Plain) (hvalues : ∀ m ∈ members, Printed m.2) :
    Printed (.object members) := by
  intro depth
  cases members with
  | nil => exact .noMembers (List.forall_mem_nil _)
  | cons m members =>
      have hwritten := membersWrittenAs_memberChars (hkeys m List.mem_cons_self)
        (fun m' hm => hkeys m' (List.mem_cons_of_mem m hm)) (hvalues m List.mem_cons_self)
        (fun m' hm => hvalues m' (List.mem_cons_of_mem m hm)) (depth + 1) (blank_newline depth)
      rw [chars]
      exact .members hwritten

/-- The printer keeps to the grammar. -/
theorem printed_of_readable {v : Json} (hv : v.Readable) : Printed v := by
  induction hv with
  | null => exact fun _ => .null
  | bool b =>
      cases b with
      | true => exact fun _ => .true
      | false => exact fun _ => .false
  | number hn =>
      intro depth
      rw [chars, Numeral.chars_eq]
      exact .number hn (Or.inl rfl)
  | string hs => exact fun _ => writtenAs_spellingChars hs
  | array _ ih => exact printed_array ih
  | object hkeys _ ih => exact printed_object hkeys ih

/-- A readable value is read as it was printed. -/
theorem parse?_render {v : Json} (hv : v.Readable) : parse? v.render = some v := by
  have hspaced := SpacedAs.spaced (List.forall_mem_nil _) (printed_of_readable hv 0)
    (List.forall_mem_nil _)
  apply parse?_of_spacedAs
  rw [render, String.toList_ofList]
  simpa using hspaced

end Json

end LeastSquares
