import Mathlib
import LeastSquares.Json.Token
import LeastSquares.Proofs.Decimal.Grammar

/-! # Reading tokens

How the first stage of reading goes on after each kind of token, and the tokens that a value is made
of. White space is passed over, a string ends at its own closing quote, and a number or a word must
be followed by something that cannot belong to it.
-/

namespace LeastSquares.Json

open Decimal

theorem tokens?_space {c : Char} (hc : isSpace c = true) (rest : List Char) :
    tokens? (c :: rest) = tokens? rest := by
  rw [tokens?, if_pos hc]

theorem isSpace_of_punctuation? {c : Char} {t : Token} (ht : punctuation? c = some t) :
    isSpace c = false := by
  unfold punctuation? at ht
  split at ht
  all_goals first | rfl | cases ht

theorem tokens?_punctuation {c : Char} {t : Token} (ht : punctuation? c = some t)
    (rest : List Char) : tokens? (c :: rest) = (tokens? rest).map (t :: ·) := by
  rw [tokens?, isSpace_of_punctuation? ht, ht]
  rfl

/-- The text that follows cannot go on with a word or a numeral. -/
def Delimited (rest : List Char) : Prop :=
  ∀ c ∈ rest.head?, c.isAlpha = false ∧ inNumeral c = false

theorem delimited_cons {c : Char} (halpha : c.isAlpha = false) (hnumeral : inNumeral c = false)
    (rest : List Char) : Delimited (c :: rest) := by
  rintro d ⟨⟩
  exact ⟨halpha, hnumeral⟩

theorem takeWhile_append_of_stop {p : Char → Bool} {piece rest : List Char}
    (hpiece : ∀ c ∈ piece, p c = true) (hstop : ∀ c ∈ rest.head?, p c = false) :
    (piece ++ rest).takeWhile p = piece ∧ (piece ++ rest).dropWhile p = rest := by
  rw [List.takeWhile_append_of_pos hpiece, List.dropWhile_append_of_pos hpiece]
  cases rest with
  | nil => simp
  | cons c rest => simp [hstop c rfl]

/-- The characters that are not part of a word or a numeral but have a meaning of their own. -/
def marks : List Char := [' ', '\t', '\n', '\r', '[', ']', '{', '}', ',', ':', '"']

theorem not_mem_marks_of_isAlpha {c : Char} (hc : c.isAlpha = true) : c ∉ marks := by
  have hmarks : ∀ c ∈ marks, c.isAlpha = false := by simp [marks]
  intro hmem
  rw [hmarks c hmem] at hc
  cases hc

theorem not_mem_marks_of_inNumeral {c : Char} (hc : inNumeral c = true) : c ∉ marks := by
  have hmarks : ∀ c ∈ marks, inNumeral c = false := by simp [marks, inNumeral]
  intro hmem
  rw [hmarks c hmem] at hc
  cases hc

/-- A character without a meaning of its own starts a word or a numeral. -/
theorem tokens?_of_not_mem_marks {c : Char} (hc : c ∉ marks) (rest : List Char) :
    tokens? (c :: rest) =
      if c.isAlpha then do
        let v ← word? (c :: rest.takeWhile Char.isAlpha)
        let ts ← tokens? (rest.dropWhile Char.isAlpha)
        return .atom v :: ts
      else do
        let n ← Numeral.ofChars? (c :: rest.takeWhile inNumeral)
        let ts ← tokens? (rest.dropWhile inNumeral)
        return .atom (.number n) :: ts := by
  have hspace : isSpace c = false := by
    unfold isSpace
    simp_all [marks]
  have hpunctuation : punctuation? c = none := by
    unfold punctuation?
    split
    all_goals first | rfl | simp [marks] at hc
  have hquote : c ≠ '"' := by
    rintro rfl
    simp [marks] at hc
  rw [tokens?, hspace, hpunctuation]
  simp only [Bool.false_eq_true, if_false, if_neg hquote]

theorem tokens?_word {c : Char} {letters : List Char} {v : Json}
    (hletters : ∀ d ∈ c :: letters, d.isAlpha = true) (hv : word? (c :: letters) = some v)
    {rest : List Char} (hrest : Delimited rest) :
    tokens? (c :: letters ++ rest) = (tokens? rest).map (.atom v :: ·) := by
  have hc : c.isAlpha = true := hletters c List.mem_cons_self
  obtain ⟨htake, hdrop⟩ := takeWhile_append_of_stop
    (fun d hd => hletters d (List.mem_cons_of_mem _ hd)) fun d hd => (hrest d hd).1
  rw [List.cons_append, tokens?_of_not_mem_marks (not_mem_marks_of_isAlpha hc), if_pos hc, htake,
    hdrop, hv]
  cases tokens? rest with
  | none => rfl
  | some ts => rfl

theorem inNumeral_toChar (d : Digit) : inNumeral d.toChar = true ∧ d.toChar.isAlpha = false := by
  revert d
  decide

theorem inNumeral_of_mem_digits (ds : List Digit) :
    ∀ c ∈ ds.map Digit.toChar, inNumeral c = true := by
  intro c hc
  obtain ⟨d, _, rfl⟩ := List.mem_map.mp hc
  exact (inNumeral_toChar d).1

theorem inNumeral_of_mem_signChars (sign : ExponentSign) :
    ∀ c ∈ Numeral.signChars sign, inNumeral c = true := by
  cases sign <;> simp [Numeral.signChars, inNumeral]

theorem exists_charsWith_eq_cons (letter : Char) {n : Numeral} (hn : n.Proper) :
    ∃ c rest, n.charsWith letter = c :: rest ∧ c.isAlpha = false := by
  obtain ⟨d, rest, hwhole⟩ := hn.exists_whole_eq_cons
  rw [Numeral.charsWith, hwhole]
  cases n.negative with
  | true => exact ⟨'-', _, rfl, by decide⟩
  | false => exact ⟨d.toChar, _, rfl, (inNumeral_toChar d).2⟩

section Numerals

variable {letter : Char} (hletter : Numeral.IsPowerLetter letter)

include hletter

theorem inNumeral_of_mem_powerChars (exponent : Option Exponent) :
    ∀ c ∈ Numeral.powerChars letter exponent, inNumeral c = true := by
  cases exponent with
  | none => exact List.forall_mem_nil _
  | some e =>
      refine List.forall_mem_cons.mpr ⟨?_, List.forall_mem_append.mpr
        ⟨inNumeral_of_mem_signChars _, inNumeral_of_mem_digits _⟩⟩
      rcases hletter with rfl | rfl <;> decide

theorem inNumeral_of_mem_charsWith (n : Numeral) :
    ∀ c ∈ n.charsWith letter, inNumeral c = true := by
  rw [Numeral.charsWith, Numeral.fractionChars]
  simp only [List.forall_mem_append]
  refine ⟨?_, inNumeral_of_mem_digits _, ?_, inNumeral_of_mem_powerChars hletter _⟩
  · split
    · simp [inNumeral]
    · exact List.forall_mem_nil _
  · split
    · exact List.forall_mem_nil _
    · exact List.forall_mem_cons.mpr ⟨by decide, inNumeral_of_mem_digits _⟩

theorem tokens?_numeral {n : Numeral} (hn : n.Proper) {rest : List Char}
    (hrest : Delimited rest) :
    tokens? (n.charsWith letter ++ rest) = (tokens? rest).map (.atom (.number n) :: ·) := by
  obtain ⟨c, cs, hchars, halpha⟩ := exists_charsWith_eq_cons letter hn
  have hall := inNumeral_of_mem_charsWith hletter n
  have hread := Numeral.ofChars?_charsWith hletter hn
  rw [hchars] at hall hread ⊢
  obtain ⟨htake, hdrop⟩ := takeWhile_append_of_stop
    (fun d hd => hall d (List.mem_cons_of_mem _ hd)) fun d hd => (hrest d hd).2
  rw [List.cons_append, tokens?_of_not_mem_marks
    (not_mem_marks_of_inNumeral (hall c List.mem_cons_self)), if_neg (by simp [halpha]), htake,
    hdrop, hread]
  cases tokens? rest with
  | none => rfl
  | some ts => rfl

end Numerals

theorem splitString?_escape (c : Char) (rest : List Char) :
    splitString? ('\\' :: c :: rest) =
      (splitString? rest).map fun split => ('\\' :: c :: split.1, split.2) := by
  rw [splitString?]

theorem splitString?_char {c : Char} (hquote : c ≠ '"') (hescape : c ≠ '\\')
    (rest : List Char) :
    splitString? (c :: rest) = (splitString? rest).map fun split => (c :: split.1, split.2) := by
  rw [splitString?]
  · exact hquote
  · exact fun d _ hc _ => hescape hc

theorem spelling?_escape {e c : Char} (he : e ≠ 'u') (hc : escaped? e = some c)
    (rest : List Char) :
    spelling? ('\\' :: e :: rest) = (spelling? rest).map (.char c :: ·) := by
  rw [spelling?, hc]
  · cases spelling? rest with
    | none => rfl
    | some s => rfl
  · exact fun _ _ _ _ _ hu _ => he hu

theorem spelling?_char {c : Char} (hescape : c ≠ '\\') (hcontrol : ¬c.toNat < 0x20)
    (rest : List Char) : spelling? (c :: rest) = (spelling? rest).map (.char c :: ·) := by
  rw [spelling?, if_neg (not_or.mpr ⟨hescape, hcontrol⟩)]
  · exact fun _ _ _ _ _ hc _ => hescape hc
  · exact fun _ _ hc _ => hescape hc

theorem spelling?_unit {a b c d : Char} {u : Nat} (hu : hexUnit? a b c d = some u)
    (rest : List Char) :
    spelling? ('\\' :: 'u' :: a :: b :: c :: d :: rest) = (spelling? rest).map (.unit u :: ·) := by
  rw [spelling?, hu]
  cases spelling? rest with
  | none => rfl
  | some s => rfl

theorem tokens?_quote {rest body after : List Char} {s : Spelling}
    (hsplit : splitString? rest = some (body, after)) (hs : spelling? body = some s) :
    tokens? ('"' :: rest) = (tokens? after).map (.string s :: ·) := by
  have hspace : isSpace '"' = false := by decide
  have hpunctuation : punctuation? '"' = none := rfl
  rw [tokens?, hspace, hpunctuation]
  simp only [Bool.false_eq_true, if_false, if_true]
  split
  next hnone =>
    rw [hsplit] at hnone
    cases hnone
  next body' after' hsome =>
    cases hsplit.symm.trans hsome
    rw [hs]
    cases tokens? after with
    | none => rfl
    | some ts => rfl

mutual

/-- The tokens that a value is made of. -/
def tokens : Json → List Token
  | .null => [.atom .null]
  | .bool b => [.atom (.bool b)]
  | .number n => [.atom (.number n)]
  | .string s => [.string s]
  | .array [] => [.openBracket, .closeBracket]
  | .array (v :: rest) => .openBracket :: tokens v ++ itemTokens rest ++ [.closeBracket]
  | .object [] => [.openBrace, .closeBrace]
  | .object ((key, v) :: rest) =>
    .openBrace :: .string key :: .colon :: tokens v ++ memberTokens rest ++ [.closeBrace]

def itemTokens : List Json → List Token
  | [] => []
  | v :: rest => .comma :: tokens v ++ itemTokens rest

def memberTokens : List (Spelling × Json) → List Token
  | [] => []
  | (key, v) :: rest => .comma :: .string key :: .colon :: tokens v ++ memberTokens rest

end

end LeastSquares.Json
