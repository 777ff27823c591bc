import Mathlib
import LeastSquares.Proofs.Comparison

/-! # The integers that doubles are ordered by

The bits of a double without its sign, read as one integer, grow with the double: the integers of
one exponent end where those of the next begin. With the sign in front these integers order all
doubles that are numbers. The two zeros have the same one.
-/

namespace LeastSquares.Double

open Float.Model (UnpackedFloat Format)
open Float.Model.UnpackedFloat (Sign)

/-- A mantissa of 53 bits, or of fewer where the exponent cannot get smaller. -/
@[mk_iff] structure Fits (mantissa : ℕ) (exponent : ℤ) : Prop where
  lt : mantissa < 2 ^ 53
  low : -1074 ≤ exponent
  normal : 2 ^ 52 ≤ mantissa ∨ exponent = -1074

/-- The integer that the bits of a mantissa and an exponent spell. -/
def place (mantissa : ℕ) (exponent : ℤ) : ℤ := (exponent + 1074) * 2 ^ 52 + mantissa

/-- The integer that the bits of infinity spell. -/
def top : ℤ := 2047 * 2 ^ 52

def key? : UnpackedFloat → Option ℤ
  | .notANumber => none
  | .infinity sign => some (sign.apply top)
  | .zero _ => some 0
  | .finite sign mantissa exponent _ => some (sign.apply (place mantissa exponent))

/-- What the unpacked form of a double is made of. -/
def Proper : UnpackedFloat → Prop
  | .finite _ mantissa exponent _ => Fits mantissa exponent ∧ exponent ≤ 971
  | _ => True

section Places

variable {m m' : ℕ} {e e' : ℤ}

theorem place_nonneg (he : -1074 ≤ e) : 0 ≤ place m e := by
  unfold place
  omega

theorem Fits.place_pos (hfits : Fits m e) (hm : 0 < m) : 0 < place m e := by
  have hlow := hfits.low
  unfold place
  omega

theorem Fits.log2_bounds (hfits : Fits m e) (hm : 0 < m) :
    m.log2 < 53 ∧ (52 ≤ m.log2 ∨ e = -1074) :=
  ⟨(Nat.log2_lt hm.ne').mpr hfits.lt, hfits.normal.imp_left (Nat.le_log2 hm.ne').mpr⟩

theorem Fits.place_lt_top_iff (hfits : Fits m e) : place m e < top ↔ e ≤ 971 := by
  obtain ⟨hlt, hlow, hnormal⟩ := hfits
  unfold place top
  omega

theorem Fits.place_le_iff (hfits : Fits m e) (hfits' : Fits m' e') :
    place m e ≤ place m' e' ↔ e < e' ∨ e = e' ∧ m ≤ m' := by
  obtain ⟨hlt, hlow, hnormal⟩ := hfits
  obtain ⟨hlt', hlow', hnormal'⟩ := hfits'
  unfold place
  omega

end Places

theorem unpacked_le_iff_key {a b : UnpackedFloat} (ha : Proper a) (hb : Proper b) :
    a.le b = true ↔ ∃ p ∈ key? a, ∃ q ∈ key? b, p ≤ q := by
  -- Signs and kinds decide, except between two finite numbers of the same sign.
  rcases a with (_ | _) | _ | s | ⟨_ | _, m, e, hm⟩ <;>
    rcases b with (_ | _) | _ | t | ⟨_ | _, m', e', hm'⟩ <;>
    simp only [Proper, fits_iff] at ha hb <;>
    simp [key?, UnpackedFloat.le, UnpackedFloat.compare, isLE_compare_then, isGE_compare_then,
      Sign.apply, place, top]
  all_goals first
    | omega
    | decide

/-! ### Unpacking -/

section Unpacking

variable {bits : BitVec Format.binary64.numBits}

theorem fits_of_unpack {s : Sign} {m : ℕ} {e : ℤ} {hm : 0 < m}
    (hbits : UnpackedFloat.unpack .binary64 bits = .finite s m e hm) : Fits m e ∧ e ≤ 971 := by
  have hmantissa : (UnpackedFloat.unpackMantissa bits).toNat < 2 ^ 52 := BitVec.isLt _
  have hexponent : (UnpackedFloat.unpackExponent bits).toNat < 2 ^ 11 := BitVec.isLt _
  have hbias : (Format.binary64.exponentBias : ℤ) = 1023 := by decide
  unfold UnpackedFloat.unpack at hbits
  dsimp only at hbits
  split at hbits
  · split at hbits <;> cases hbits
  next hlast =>
    split at hbits
    next hzero =>
      -- Subnormal numbers have the least exponent.
      split at hbits
      · cases hbits
      next hnonzero =>
        cases hbits
        rw [hzero]
        exact ⟨⟨by omega, by decide, Or.inr (by decide)⟩, by decide⟩
    next hnonzero =>
      cases hbits
      have hfirst : (UnpackedFloat.unpackExponent bits).toNat ≠ 0 :=
        fun h => hnonzero (BitVec.eq_of_toNat_eq h)
      have hlast : (UnpackedFloat.unpackExponent bits).toNat ≠ 2047 :=
        fun h => hlast (BitVec.eq_of_toNat_eq h)
      have happend : (1#1 ++ UnpackedFloat.unpackMantissa bits).toNat =
          2 ^ 52 + (UnpackedFloat.unpackMantissa bits).toNat := by
        rw [BitVec.toNat_append, ← Nat.shiftLeft_add_eq_or_of_lt hmantissa]
        rfl
      rw [happend, hbias]
      simp only [Format.binary64] at *
      refine ⟨⟨?_, ?_, ?_⟩, ?_⟩ <;> omega

theorem proper_unpack (bits : BitVec Format.binary64.numBits) :
    Proper (UnpackedFloat.unpack .binary64 bits) := by
  cases hunpack : UnpackedFloat.unpack .binary64 bits with
  | finite s m e hm => exact fits_of_unpack hunpack
  | _ => trivial

end Unpacking

theorem le_iff_key (a b : Float) :
    a ≤ b ↔ ∃ p ∈ key? a.toModel.unpack, ∃ q ∈ key? b.toModel.unpack, p ≤ q := by
  have hle : a ≤ b ↔ a.toModel.unpack.le b.toModel.unpack = true := decide_eq_true_iff
  exact hle.trans (unpacked_le_iff_key (proper_unpack _) (proper_unpack _))

/-! ### Packing -/

theorem toNat_ofNat_of_lt {w k : ℕ} (hk : k < 2 ^ w) : (BitVec.ofNat w k).toNat = k := by
  rw [BitVec.toNat_ofNat, Nat.mod_eq_of_lt hk]

theorem ofNat_ne_ofNat {w k l : ℕ} (hk : k < 2 ^ w) (hl : l < 2 ^ w) (hne : k ≠ l) :
    BitVec.ofNat w k ≠ BitVec.ofNat w l := by
  intro heq
  apply hne
  rw [← toNat_ofNat_of_lt hk, heq, toNat_ofNat_of_lt hl]

theorem unpack_packedInfinity (s : Sign) :
    UnpackedFloat.unpack .binary64 (UnpackedFloat.packedInfinity .binary64 s) = .infinity s := by
  simp [UnpackedFloat.unpack, UnpackedFloat.packedInfinity]

theorem unpack_normal (s : Sign) {m k : ℕ} (hlow : 2 ^ 52 ≤ m) (hlt : m < 2 ^ 53) (hk : k ≠ 0)
    (hk' : k < 2047) :
    UnpackedFloat.unpack .binary64
        (UnpackedFloat.packComponents .binary64 s (BitVec.ofNat 11 k) (BitVec.ofNat 52 m)) =
      .finite s m (k - 1075) (by omega) := by
  -- The leading bit is not stored.
  have hmantissa : (1#1 ++ BitVec.ofNat 52 m).toNat = m := by
    rw [BitVec.toNat_append, ← Nat.shiftLeft_add_eq_or_of_lt (BitVec.isLt _), BitVec.toNat_ofNat,
      BitVec.toNat_ofNat, Nat.shiftLeft_eq]
    omega
  have hlast : BitVec.ofNat 11 k ≠ -1#11 :=
    ofNat_ne_ofNat (l := 2047) (by omega) (by decide) hk'.ne
  have hfirst : BitVec.ofNat 11 k ≠ 0#11 := ofNat_ne_ofNat (by omega) (by decide) hk
  unfold UnpackedFloat.unpack
  simp only [UnpackedFloat.unpackMantissa_packComponents,
    UnpackedFloat.unpackExponent_packComponents, UnpackedFloat.unpackSign_packComponents,
    Sign.ofBitVec_toBitVec, if_neg hlast, if_neg hfirst, hmantissa]
  congr 1
  rw [toNat_ofNat_of_lt (by omega)]
  rfl

theorem unpack_subnormal (s : Sign) {m : ℕ} (hm : 0 < m) (hlt : m < 2 ^ 52) :
    UnpackedFloat.unpack .binary64
        (UnpackedFloat.packComponents .binary64 s 0#11 (BitVec.ofNat 52 m)) =
      .finite s m (-1074) hm := by
  have hmantissa : BitVec.ofNat 52 m ≠ 0#52 := ofNat_ne_ofNat hlt (by decide) hm.ne'
  have hlast : (0#11 : BitVec 11) ≠ -1#11 := by decide
  unfold UnpackedFloat.unpack
  simp only [UnpackedFloat.unpackMantissa_packComponents,
    UnpackedFloat.unpackExponent_packComponents, UnpackedFloat.unpackSign_packComponents,
    Sign.ofBitVec_toBitVec, if_neg hlast, dif_neg hmantissa, toNat_ofNat_of_lt hlt]
  rfl

/-- A mantissa and an exponent that fit are kept as they are, unless the exponent is too large. -/
theorem unpack_pack_finite (s : Sign) {m : ℕ} {e : ℤ} (hm : 0 < m) (hfits : Fits m e) :
    UnpackedFloat.unpack .binary64 (UnpackedFloat.pack .binary64 (.finite s m e hm)) =
      if e ≤ 971 then .finite s m e hm else .infinity s := by
  obtain ⟨hlt, hlow, hnormal⟩ := hfits
  obtain ⟨k, rfl⟩ : ∃ k : ℕ, e = k - 1075 := ⟨(e + 1075).toNat, by omega⟩
  have hbiased : ((k : ℤ) - 1075 + Format.binary64.exponentBias +
      Format.binary64.mantissaBitsWithoutImplicit).toNat = k := by
    have hbias : Format.binary64.exponentBias = 1023 := rfl
    rw [hbias]
    dsimp only
    omega
  have hbits : Format.binary64.mantissaBits = 53 := rfl
  unfold UnpackedFloat.pack
  dsimp only
  rw [hbiased]
  by_cases he : (k : ℤ) - 1075 ≤ 971
  · rw [if_neg (by omega), if_pos he]
    by_cases hmantissa : 2 ^ 52 ≤ m
    · have hlog : m.log2 = 52 := (Nat.log2_eq_iff hm.ne').mpr ⟨hmantissa, hlt⟩
      rw [if_pos (by omega)]
      exact unpack_normal s hmantissa hlt (by omega) (by omega)
    · have hlog : m.log2 < 52 := (Nat.log2_lt hm.ne').mpr (not_le.mp hmantissa)
      obtain rfl : k = 1 := by omega
      rw [if_neg (by omega)]
      exact unpack_subnormal s hm (not_le.mp hmantissa)
  · rw [if_pos (by omega), if_neg he, unpack_packedInfinity]

theorem key?_pack_zero (s : Sign) :
    key? (UnpackedFloat.unpack .binary64 (UnpackedFloat.pack .binary64 (.zero s))) = some 0 := by
  rw [UnpackedFloat.pack, UnpackedFloat.unpack_packedZero]
  rfl

theorem key?_pack_infinity (s : Sign) :
    key? (UnpackedFloat.unpack .binary64 (UnpackedFloat.pack .binary64 (.infinity s))) =
      some (s.apply top) := by
  rw [UnpackedFloat.pack, unpack_packedInfinity]
  rfl

theorem key?_pack_finite (s : Sign) {m : ℕ} {e : ℤ} (hm : 0 < m) (hfits : Fits m e) :
    key? (UnpackedFloat.unpack .binary64 (UnpackedFloat.pack .binary64 (.finite s m e hm))) =
      some (s.apply (min (place m e) top)) := by
  rw [unpack_pack_finite s hm hfits]
  split
  next he =>
    rw [min_eq_left (hfits.place_lt_top_iff.mpr he).le]
    rfl
  next he =>
    rw [min_eq_right (not_lt.mp (mt hfits.place_lt_top_iff.mp he))]
    rfl

end LeastSquares.Double
