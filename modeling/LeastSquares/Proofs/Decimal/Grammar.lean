import Mathlib
import LeastSquares.Decimal.Layout
import LeastSquares.Decimal.Reading

/-! # Numerals that can be read

A numeral that keeps to the grammar of JSON is read as what it is: a whole part without a useless
zero in front, and digits behind the power sign if there is a power. Every layout of a double keeps
to it, and so do the digits of a natural number.
-/

namespace LeastSquares.Decimal

theorem digits_ne_nil (n : Nat) : digits n ≠ [] := by
  fun_induction digits n with
  | case1 n hn => simp
  | case2 n hn ih => simp

theorem digits_zero : digits 0 = [Digit.zero] := by
  rw [digits]
  rfl

/-- Only zero starts with a zero. -/
theorem exists_digits_eq_cons {n : Nat} (hn : n ≠ 0) :
    ∃ d rest, digits n = d :: rest ∧ d ≠ Digit.zero := by
  fun_induction digits n with
  | case1 n hsmall =>
      refine ⟨_, [], rfl, ?_⟩
      intro hzero
      have hmod : n % 10 = 0 := congrArg Fin.val hzero
      omega
  | case2 n hlarge ih =>
      obtain ⟨d, rest, hdigits, hd⟩ := ih (by omega)
      exact ⟨d, rest ++ [_], by rw [hdigits]; rfl, hd⟩

namespace Numeral

/-- The numerals of JSON. -/
structure Proper (n : Numeral) : Prop where
  whole : wholeAllowed n.whole = true
  exponent : ∀ e ∈ n.exponent, e.digits ≠ []

theorem wholeAllowed_cons {d : Digit} (hd : d ≠ Digit.zero) (rest : List Digit) :
    wholeAllowed (d :: rest) = true := by
  cases rest with
  | nil => rfl
  | cons d' rest => exact decide_eq_true hd

theorem takeDigits_all (ds : List Digit) : takeDigits (ds.map Digit.toChar) = (ds, []) := by
  have htake := takeDigits_map_toChar ds [] (by simp)
  rwa [List.append_nil] at htake

theorem readExponentSign_toChar (d : Digit) (rest : List Char) :
    readExponentSign (d.toChar :: rest) = (.bare, d.toChar :: rest) := by
  fin_cases d <;> rfl

def signChars : ExponentSign → List Char
  | .bare => []
  | .plus => ['+']
  | .minus => ['-']

/-- A power of ten behind a letter. -/
def powerChars (letter : Char) : Option Exponent → List Char
  | none => []
  | some ⟨sign, ds⟩ => letter :: (signChars sign ++ ds.map Digit.toChar)

theorem exponentChars_eq (exponent : Option Exponent) :
    exponentChars exponent = powerChars 'e' exponent := by
  cases exponent with
  | none => rfl
  | some e =>
      obtain ⟨sign, ds⟩ := e
      cases sign <;> rfl

/-- The letters that may stand in front of a power of ten. -/
def IsPowerLetter (letter : Char) : Prop := letter = 'e' ∨ letter = 'E'

variable {letter : Char}

theorem readExponentSign_signChars (sign : ExponentSign) (d : Digit) (rest : List Char) :
    readExponentSign (signChars sign ++ d.toChar :: rest) = (sign, d.toChar :: rest) := by
  cases sign with
  | bare => exact readExponentSign_toChar d rest
  | plus => rfl
  | minus => rfl

theorem readExponent?_powerChars (hletter : IsPowerLetter letter) {exponent : Option Exponent}
    (hdigits : ∀ e ∈ exponent, e.digits ≠ []) :
    readExponent? (powerChars letter exponent) = some exponent := by
  cases exponent with
  | none => rfl
  | some e =>
      obtain ⟨sign, ds⟩ := e
      obtain ⟨d, ds, rfl⟩ := List.exists_cons_of_ne_nil (hdigits _ rfl)
      have htake := takeDigits_all (d :: ds)
      rw [powerChars, readExponent?, if_pos (show letter = 'e' ∨ letter = 'E' from hletter),
        List.map_cons, readExponentSign_signChars]
      dsimp only
      rw [← List.map_cons, htake]

/-- What follows the digits in front of it does not start with a digit. -/
theorem ofChar?_head_powerChars (hletter : IsPowerLetter letter) (exponent : Option Exponent) :
    ∀ c ∈ (powerChars letter exponent).head?, Digit.ofChar? c = none := by
  intro c hc
  cases exponent with
  | none => simp [powerChars] at hc
  | some e =>
      obtain ⟨sign, ds⟩ := e
      cases hc
      rcases hletter with rfl | rfl <;> decide

/-- The point and the digits after it. -/
def fractionChars (fraction : List Digit) : List Char :=
  if fraction.isEmpty then [] else '.' :: fraction.map Digit.toChar

theorem readFraction?_powerChars (hletter : IsPowerLetter letter) (exponent : Option Exponent) :
    readFraction? (powerChars letter exponent) = some ([], powerChars letter exponent) := by
  cases exponent with
  | none => rfl
  | some e => rcases hletter with rfl | rfl <;> rfl

theorem readFraction?_fractionChars (hletter : IsPowerLetter letter) (fraction : List Digit)
    (exponent : Option Exponent) :
    readFraction? (fractionChars fraction ++ powerChars letter exponent) =
      some (fraction, powerChars letter exponent) := by
  cases fraction with
  | nil => exact readFraction?_powerChars hletter exponent
  | cons d ds =>
      have htake := takeDigits_map_toChar (d :: ds) (powerChars letter exponent)
        (ofChar?_head_powerChars hletter exponent)
      simp only [fractionChars, List.isEmpty_cons, Bool.false_eq_true, if_false, List.cons_append,
        readFraction?]
      rw [htake]

theorem ofChar?_head_tail (hletter : IsPowerLetter letter) (fraction : List Digit)
    (exponent : Option Exponent) :
    ∀ c ∈ (fractionChars fraction ++ powerChars letter exponent).head?, Digit.ofChar? c = none := by
  cases fraction with
  | nil => exact ofChar?_head_powerChars hletter exponent
  | cons d ds =>
      intro c hc
      cases hc
      decide

/-- A numeral with a letter of choice in front of the power of ten. -/
def charsWith (letter : Char) (n : Numeral) : List Char :=
  (if n.negative then ['-'] else []) ++
    (n.whole.map Digit.toChar ++ (fractionChars n.fraction ++ powerChars letter n.exponent))

theorem chars_eq (n : Numeral) : n.chars = n.charsWith 'e' := by
  unfold chars charsWith fractionChars
  rw [exponentChars_eq]
  simp only [List.append_assoc]

theorem readUnsigned?_charsWith (hletter : IsPowerLetter letter) {n : Numeral} (hn : n.Proper) :
    readUnsigned? n.negative
      (n.whole.map Digit.toChar ++ (fractionChars n.fraction ++ powerChars letter n.exponent)) =
        some n := by
  have htake := takeDigits_map_toChar n.whole _ (ofChar?_head_tail hletter n.fraction n.exponent)
  unfold readUnsigned?
  rw [htake]
  dsimp only
  rw [if_pos hn.whole, readFraction?_fractionChars hletter]
  show (readExponent? (powerChars letter n.exponent) >>= fun _ => _) = _
  rw [readExponent?_powerChars hletter hn.exponent]
  rfl

theorem ofChars?_toChar (d : Digit) (rest : List Char) :
    ofChars? (d.toChar :: rest) = readUnsigned? false (d.toChar :: rest) := by
  fin_cases d <;> rfl

/-- A whole part has a first digit. -/
theorem Proper.exists_whole_eq_cons {n : Numeral} (hn : n.Proper) :
    ∃ d rest, n.whole = d :: rest := by
  have hwhole := hn.whole
  cases hdigits : n.whole with
  | nil =>
      rw [hdigits] at hwhole
      cases hwhole
  | cons d rest => exact ⟨d, rest, rfl⟩

/-- A numeral of JSON is read as what it is. -/
theorem ofChars?_charsWith (hletter : IsPowerLetter letter) {n : Numeral} (hn : n.Proper) :
    ofChars? (n.charsWith letter) = some n := by
  have hread := readUnsigned?_charsWith hletter hn
  unfold charsWith
  cases hnegative : n.negative with
  | true =>
      rw [hnegative] at hread
      exact hread
  | false =>
      obtain ⟨d, rest, hwhole⟩ := hn.exists_whole_eq_cons
      rw [hnegative, hwhole] at hread
      rw [hwhole]
      exact (ofChars?_toChar d _).trans hread

end Numeral

/-- The digits of a natural number keep to the grammar. -/
theorem Numeral.proper_digits (n : Nat) : (⟨false, digits n, [], none⟩ : Numeral).Proper where
  whole := by
    by_cases hn : n = 0
    · rw [hn, digits_zero]
      rfl
    · obtain ⟨d, rest, hdigits, hd⟩ := exists_digits_eq_cons hn
      dsimp only
      rw [hdigits]
      exact wholeAllowed_cons hd rest
  exponent e he := by cases he

theorem Numeral.natural?_digits {n : Nat} (hn : n ≤ wordMax) :
    natural? ⟨false, digits n, [], none⟩ = some n := by
  unfold natural?
  dsimp only
  rw [value_digits, if_pos hn]
  rfl

/-- Zero is too far from every other double to be read as one. -/
theorem Binary.coefficient_ne_zero_of_readsBack {x : Binary} {d : Scaled} (hx : x.mantissa ≠ 0)
    (hreads : x.readsBack d = true) : d.coefficient ≠ 0 := by
  intro hzero
  have hscale : 0 < Nat.pow 2 (x.power - 2).toNat * Nat.pow 10 (-d.power).toNat :=
    Nat.mul_pos (Nat.pow_pos (by decide)) (Nat.pow_pos (by decide))
  unfold readsBack at hreads
  dsimp only at hreads
  rw [hzero, Nat.zero_mul, Nat.zero_mul] at hreads
  have hlow : 0 < if x.narrowBelow then 4 * x.mantissa - 1 else 4 * x.mantissa - 2 := by
    split <;> omega
  have hpositive := Nat.mul_pos hlow hscale
  split at hreads
  · simp only [Bool.and_eq_true, decide_eq_true_eq] at hreads
    omega
  · simp only [Bool.and_eq_true, decide_eq_true_eq] at hreads
    omega

theorem Binary.readsBack_of_onGrid? {x : Binary} {tie : Tie} {e : Int} {d : Scaled}
    (hgrid : x.onGrid? tie e = some d) : x.readsBack d = true := by
  unfold onGrid? at hgrid
  dsimp only at hgrid
  split at hgrid
  next hbelow _ =>
    cases hgrid
    exact hbelow
  next _ habove =>
    cases hgrid
    exact habove
  · cases hgrid
  next hbelow habove =>
    split at hgrid
    · cases hgrid
      exact hbelow
    · cases hgrid
      exact habove
    · cases tie with
      | up =>
          cases hgrid
          exact habove
      | even =>
          dsimp only at hgrid
          split at hgrid
          · cases hgrid
            exact hbelow
          · cases hgrid
            exact habove

theorem Binary.exact_coefficient_ne_zero {x : Binary} (hx : x.mantissa ≠ 0) :
    x.exact.coefficient ≠ 0 := by
  unfold exact
  split
  · exact Nat.mul_ne_zero hx (Nat.pow_pos (by decide)).ne'
  · exact Nat.mul_ne_zero hx (Nat.pow_pos (by decide)).ne'

theorem Scaled.trim_coefficient_ne_zero (d : Scaled) (hd : d.coefficient ≠ 0) :
    d.trim.coefficient ≠ 0 := by
  fun_induction trim d with
  | case1 d htrailing ih => exact ih (by dsimp only; omega)
  | case2 d hdone => exact hd

/-- Only a zero is named by a zero. -/
theorem Binary.shortest_coefficient_ne_zero {x : Binary} (tie : Tie) (hx : x.mantissa ≠ 0) :
    (x.shortest tie).coefficient ≠ 0 := by
  unfold shortest
  rw [if_neg hx]
  apply Scaled.trim_coefficient_ne_zero
  cases hfound : (List.range 17).findSome? fun (k : Nat) => x.onGrid? tie (x.leading - (k : Int)) with
  | none => exact exact_coefficient_ne_zero hx
  | some d =>
      obtain ⟨k, _, hgrid⟩ := List.exists_of_findSome?_eq_some hfound
      exact coefficient_ne_zero_of_readsBack hx (readsBack_of_onGrid? hgrid)

namespace Layout

theorem scale_proper (l : Layout) (negative : Bool) (n : Nat) (e : Int) :
    (l.scale negative (digits n) e).Proper where
  whole := by
    obtain ⟨d, rest, hdigits⟩ := List.exists_cons_of_ne_nil (digits_ne_nil n)
    simp [scale, hdigits, Numeral.wholeAllowed]
  exponent := by
    rintro _ ⟨⟩
    exact digits_ne_nil _

theorem place_proper (l : Layout) (negative : Bool) {n : Nat} (hn : n ≠ 0) (e : Int) :
    (l.place negative (digits n) e).Proper := by
  obtain ⟨d, rest, hdigits, hd⟩ := exists_digits_eq_cons hn
  unfold place
  split
  · exact ⟨rfl, fun e he => by cases he⟩
  · refine ⟨?_, fun e he => by cases he⟩
    dsimp only
    rw [hdigits, List.take_succ_cons, List.cons_append]
    exact Numeral.wholeAllowed_cons hd _

/-- Whatever the layout, a double is written as a numeral of JSON. -/
theorem numeral_proper (l : Layout) (x : Float) : (l.numeral x).Proper := by
  unfold numeral
  dsimp only
  split
  · by_cases hx : (Binary.ofFloat x).mantissa = 0
    · have hzero : (Binary.ofFloat x).shortest l.tie = ⟨0, 0⟩ := if_pos hx
      rw [hzero, digits_zero]
      exact ⟨rfl, fun e he => by cases he⟩
    · exact l.place_proper _ (Binary.shortest_coefficient_ne_zero _ hx) _
  · exact l.scale_proper _ _ _

end Layout

end LeastSquares.Decimal
