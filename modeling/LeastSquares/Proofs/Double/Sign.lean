import Mathlib
import LeastSquares.Proofs.Double.Product

/-! # The signs of quotients and counts

Packing keeps the sign of a number, so a rounded quotient has the sign that the exact one has. It is
positive for a positive divisor only if the dividend is, and for a divisor that is not a number it
is no number either. A count is a positive double unless it is zero, however large it is.
-/

namespace LeastSquares.Double

open Float.Model (UnpackedFloat Format)
open Float.Model.UnpackedFloat (Sign roundWithAccuracy)

/-! ### Signs -/

/-- The sign that a number carries. Zeros carry one, too. -/
def sign? : UnpackedFloat → Option Sign
  | .notANumber => none
  | .infinity s => some s
  | .zero s => some s
  | .finite s _ _ _ => some s

/-- The values above zero. -/
inductive Positive : UnpackedFloat → Prop
  | infinity : Positive (.infinity .positive)
  | finite (mantissa : ℕ) (exponent : ℤ) (hmantissa : 0 < mantissa) :
      Positive (.finite .positive mantissa exponent hmantissa)

theorem zero_lt_iff (a : Float) : Scalar.zero < a ↔ Positive a.toModel.unpack := by
  rw [lt_iff, unpack_zero]
  generalize a.toModel.unpack = u
  constructor
  · rcases u with (_ | _) | _ | s | ⟨_ | _, m, e, hm⟩
    · simp [rank?, Prod.Lex.toLex_lt_toLex]
    · exact fun _ => .infinity
    · simp [rank?]
    · simp [rank?]
    · simp [rank?, Prod.Lex.toLex_lt_toLex]
    · exact fun _ => .finite m e hm
  · intro hu
    cases hu with
    | infinity => exact ⟨_, rfl, _, rfl, by decide⟩
    | finite m e hm => exact ⟨_, rfl, _, rfl, by simp [Prod.Lex.toLex_lt_toLex]⟩

theorem Positive.sign?_eq {u : UnpackedFloat} (hu : Positive u) : sign? u = some .positive := by
  cases hu with
  | infinity => rfl
  | finite => rfl

theorem sign_of_unpack {bits : BitVec Format.binary64.numBits} {s : Sign}
    (hs : sign? (UnpackedFloat.unpack .binary64 bits) = some s) :
    s = Sign.ofBitVec (UnpackedFloat.unpackSign bits) := by
  unfold UnpackedFloat.unpack at hs
  dsimp only at hs
  split at hs
  · split at hs
    · exact (Option.some.inj hs).symm
    · cases hs
  · split at hs
    · split at hs
      · exact (Option.some.inj hs).symm
      · exact (Option.some.inj hs).symm
    · exact (Option.some.inj hs).symm

/-- What unpacks as a number has the sign that was packed. -/
theorem sign?_of_pack {u : UnpackedFloat} {s : Sign}
    (hs : sign? (UnpackedFloat.unpack .binary64 (UnpackedFloat.pack .binary64 u)) = some s) :
    sign? u = some s := by
  have hcomponents (t : Sign) {exponent mantissa}
      (hpack : UnpackedFloat.pack .binary64 u =
        UnpackedFloat.packComponents .binary64 t exponent mantissa) : some t = some s := by
    rw [sign_of_unpack hs, hpack, UnpackedFloat.unpackSign_packComponents,
      Sign.ofBitVec_toBitVec]
  cases u with
  | notANumber =>
      rw [UnpackedFloat.pack, UnpackedFloat.unpack_packedNaN] at hs
      cases hs
  | infinity t => exact hcomponents t rfl
  | zero t => exact hcomponents t rfl
  | finite t m e hm =>
      unfold UnpackedFloat.pack at hcomponents
      dsimp only at hcomponents
      split at hcomponents
      · exact hcomponents t rfl
      · split at hcomponents
        · exact hcomponents t rfl
        · exact hcomponents t rfl

/-! ### Quotients -/

theorem unpack_div (a b : Float) :
    (a / b).toModel.unpack = UnpackedFloat.unpack .binary64 (UnpackedFloat.pack .binary64
      (UnpackedFloat.div .binary64 a.toModel.unpack b.toModel.unpack)) :=
  rfl

theorem sign?_roundWithAccuracy (s : Sign) (mantissa : ℕ) (exponent : ℤ)
    (accuracy : UnpackedFloat.Accuracy) :
    sign? (roundWithAccuracy .binary64 s mantissa exponent accuracy) = some s := by
  unfold roundWithAccuracy
  dsimp only
  split
  · rfl
  · rfl

theorem div_positive (s : Sign) : s / Sign.positive = s := by
  cases s <;> rfl

/-- A quotient by a positive divisor has the sign of the dividend. -/
theorem sign?_of_div {u v : UnpackedFloat} (hv : Positive v) {s : Sign}
    (hs : sign? (UnpackedFloat.div .binary64 u v) = some s) : sign? u = some s := by
  cases hv with
  | infinity =>
      cases u with
      | notANumber => cases hs
      | infinity t => cases hs
      | zero t => exact (congrArg some (div_positive t)).symm.trans hs
      | finite t m e hm => exact (congrArg some (div_positive t)).symm.trans hs
  | finite m₀ e₀ hm₀ =>
      cases u with
      | notANumber => cases hs
      | infinity t => exact (congrArg some (div_positive t)).symm.trans hs
      | zero t => exact (congrArg some (div_positive t)).symm.trans hs
      | finite t m e hm =>
          rw [UnpackedFloat.div, div_positive] at hs
          exact (sign?_roundWithAccuracy t _ _ _).symm.trans hs

/-- Zero divided by a positive number is zero. -/
theorem zero_div {s : Sign} {v : UnpackedFloat} (hv : Positive v) :
    UnpackedFloat.div .binary64 (.zero s) v = .zero s := by
  cases hv with
  | infinity => exact congrArg _ (div_positive s)
  | finite => exact congrArg _ (div_positive s)

/-- A quotient by a positive divisor is positive only if its dividend is. -/
theorem pos_of_div_pos {a b : Float} (hb : Scalar.zero < b) (hquotient : Scalar.zero < a / b) :
    Scalar.zero < a := by
  rw [zero_lt_iff] at hb hquotient ⊢
  rw [unpack_div] at hquotient
  have hsign := sign?_of_div hb (sign?_of_pack hquotient.sign?_eq)
  cases ha : a.toModel.unpack with
  | notANumber =>
      rw [ha] at hsign
      cases hsign
  | infinity s =>
      rw [ha] at hsign
      cases hsign
      exact .infinity
  | zero s =>
      rw [ha, zero_div hb, UnpackedFloat.pack, UnpackedFloat.unpack_packedZero] at hquotient
      cases hquotient
  | finite s m e hm =>
      rw [ha] at hsign
      cases hsign
      exact .finite m e hm

theorem div_notANumber (u : UnpackedFloat) :
    UnpackedFloat.div .binary64 u .notANumber = .notANumber := by
  cases u <;> rfl

theorem isNaN_iff (a : Float) : Scalar.isNaN a = true ↔ a.toModel.unpack = .notANumber := by
  rw [← Bool.not_eq_false, Scalar.isNaN_eq_false_iff, le_iff]
  rcases a.toModel.unpack with (_ | _) | _ | s | ⟨_ | _, m, e, hm⟩ <;> simp [rank?]

/-- What is not a number gives none as a divisor. -/
theorem isNaN_div {a b : Float} (hb : Scalar.isNaN b = true) : Scalar.isNaN (a / b) = true := by
  rw [isNaN_iff] at hb ⊢
  rw [unpack_div, hb, div_notANumber, UnpackedFloat.pack, UnpackedFloat.unpack_packedNaN]

/-! ### Counts -/

theorem ofNat_eq_of_lt {n : ℕ} (hn : n < 2 ^ 53) :
    Float.ofNat n = n.toUInt64.toFloat * Float.ofBits 0x3FF0000000000000 := by
  have hfast : n < 2 ^ 53 ∧ 0 ≤ 22 := ⟨hn, by decide⟩
  show Float.ofScientific n false 0 = _
  unfold Float.ofScientific
  rw [dif_pos hfast]
  rfl

theorem ofNat_eq_of_le {n : ℕ} (hn : 2 ^ 53 ≤ n) :
    Float.ofNat n = Float.ofModel (Float.Model.ofScientific n 0) := by
  have hslow : ¬(n < 2 ^ 53 ∧ 0 ≤ 22) := fun hfast => absurd hfast.1 (not_lt.mpr hn)
  show Float.ofScientific n false 0 = _
  unfold Float.ofScientific
  rw [dif_neg hslow]
  rfl

theorem Proper.positive {u : UnpackedFloat} (hu : Proper u) {p : ℤ} (hp : key? u = some p)
    (hpos : 0 < p) : Positive u := by
  rcases u with (_ | _) | _ | s | ⟨_ | _, m, e, hm⟩
  · cases hp
    exact absurd hpos (by decide)
  · exact .infinity
  · cases hp
  · cases hp
    exact absurd hpos (lt_irrefl 0)
  · cases hp
    have hplace := hu.1.place_pos hm
    simp only [Sign.apply] at hpos
    omega
  · exact .finite m e hm

/-- Rounding does not take a number to zero, unless all its bits are cut off. -/
theorem positive_round {m : ℕ} {e : ℤ} (hm : 0 < m) (he : e ≤ grid m e)
    (hkept : 2 ^ (grid m e - e).toNat ≤ m) :
    Positive (UnpackedFloat.unpack .binary64
      (UnpackedFloat.pack .binary64 (roundWithAccuracy .binary64 .positive m e .exact))) := by
  refine (proper_unpack _).positive (key?_round .positive hm he) ?_
  have hcoarse : 1 ≤ coarse m e := by
    apply le_nearest
    rwa [one_mul]
  have hlow := le_grid m e
  refine lt_min ?_ (by decide)
  unfold place
  omega

theorem log2_mul_two_pow {m : ℕ} (hm : 0 < m) (k : ℕ) : (m * 2 ^ k).log2 = m.log2 + k := by
  rw [Nat.log2_eq_iff (Nat.mul_pos hm (Nat.two_pow_pos k)).ne', pow_add, add_right_comm, pow_add]
  have hlow := Nat.log2_self_le hm.ne'
  have hhigh : m < 2 ^ (m.log2 + 1) := Nat.lt_log2_self
  exact ⟨Nat.mul_le_mul_right _ hlow, Nat.mul_lt_mul_of_pos_right hhigh (Nat.two_pow_pos k)⟩

/-- A word that is not zero is a positive double. -/
theorem positive_toFloat {w : UInt64} (hw : 0 < w.toNat) : Positive w.toFloat.toModel.unpack := by
  obtain ⟨k, hk⟩ : ∃ k : ℕ, k = (0 - grid w.toNat 0).toNat := ⟨_, rfl⟩
  have hround : UnpackedFloat.ofNat .binary64 w.toNat =
      roundWithAccuracy .binary64 .positive (w.toNat * 2 ^ k) (0 - k) .exact := by
    unfold UnpackedFloat.ofNat UnpackedFloat.ofInt UnpackedFloat.normalize
    rw [Int.compare_eq_gt.mpr (by omega), hk, ← Nat.shiftLeft_eq]
    rfl
  have hfirst := grid_eq w.toNat 0
  have hgrid := grid_eq (w.toNat * 2 ^ k) (0 - k)
  rw [log2_mul_two_pow hw] at hgrid
  have hpos : 0 < w.toNat * 2 ^ k := Nat.mul_pos hw (Nat.two_pow_pos k)
  show Positive (UnpackedFloat.unpack .binary64
    (UnpackedFloat.pack .binary64 (UnpackedFloat.ofNat .binary64 w.toNat)))
  rw [hround]
  refine positive_round hpos (by omega) ?_
  calc
    2 ^ (grid (w.toNat * 2 ^ k) (0 - k) - (0 - k)).toNat ≤ 2 ^ w.toNat.log2 :=
      Nat.pow_le_pow_right two_pos (by omega)
    _ ≤ w.toNat := Nat.log2_self_le hw.ne'
    _ ≤ w.toNat * 2 ^ k := Nat.le_mul_of_pos_right _ (Nat.two_pow_pos k)

/-- The factor one keeps a positive double positive. -/
theorem positive_mul_one {a : Float} (ha : Positive a.toModel.unpack) :
    Positive (a * Float.ofBits 0x3FF0000000000000).toModel.unpack := by
  have hone : (Float.ofBits 0x3FF0000000000000).toModel.unpack =
      .finite .positive (2 ^ 52) (-52) (by decide) := by rfl
  rw [unpack_mul, hone]
  cases hunpack : a.toModel.unpack with
  | infinity s =>
      rw [hunpack] at ha
      cases ha
      rw [UnpackedFloat.mul, UnpackedFloat.pack, unpack_packedInfinity]
      exact .infinity
  | finite s m e hm =>
      rw [hunpack] at ha
      cases ha
      have hfits := (fits_of_unpack hunpack).1
      have hlow := hfits.low
      have hlog := hfits.log2_bounds hm
      have hgrid := grid_eq (m * 2 ^ 52) (e + -52)
      rw [log2_mul_two_pow hm] at hgrid
      refine positive_round (Nat.mul_pos hm (by decide)) (by omega) ?_
      have hshift : (grid (m * 2 ^ 52) (e + -52) - (e + -52)).toNat = 52 := by omega
      rw [hshift]
      exact Nat.le_mul_of_pos_left _ hm
  | _ =>
      rw [hunpack] at ha
      cases ha

theorem ofScientific_eq {n : ℕ} (hn : n ≠ 0) :
    UnpackedFloat.ofScientific .binary64 n 0 =
      roundWithAccuracy .binary64 .positive (n * 2 ^ 53) (-53) .exact := by
  have hbits : Format.binary64.exponentBits = 11 := rfl
  have hmantissa : Format.binary64.mantissaBits = 53 := rfl
  unfold UnpackedFloat.ofScientific
  rw [dif_neg hn, hbits, if_neg (by decide), if_neg (by omega), if_pos le_rfl, UnpackedFloat.mul,
    positive_mul]
  simp only [hmantissa, Nat.shiftLeft_eq, Int.toNat_zero, pow_zero, mul_one, add_zero]
  rfl

/-- A count is positive unless it is zero. -/
theorem count_pos {n : ℕ} (hn : n ≠ 0) : Scalar.zero < (n : Float) := by
  have hpos := Nat.pos_of_ne_zero hn
  rw [zero_lt_iff]
  show Positive (Float.ofNat n).toModel.unpack
  rcases lt_or_ge n (2 ^ 53) with hlt | hle
  · rw [ofNat_eq_of_lt hlt]
    apply positive_mul_one
    apply positive_toFloat
    have hword : n.toUInt64.toNat = n := Nat.mod_eq_of_lt (by omega)
    rwa [hword]
  · rw [ofNat_eq_of_le hle]
    show Positive (UnpackedFloat.unpack .binary64
      (UnpackedFloat.pack .binary64 (UnpackedFloat.ofScientific .binary64 n 0)))
    rw [ofScientific_eq hn]
    have hgrid := grid_eq (n * 2 ^ 53) (-53)
    rw [log2_mul_two_pow hpos] at hgrid
    refine positive_round (Nat.mul_pos hpos (by decide)) (by omega) ?_
    calc
      2 ^ (grid (n * 2 ^ 53) (-53) - -53).toNat ≤ 2 ^ (n.log2 + 53) :=
        Nat.pow_le_pow_right two_pos (by omega)
      _ = 2 ^ n.log2 * 2 ^ 53 := pow_add ..
      _ ≤ n * 2 ^ 53 := Nat.mul_le_mul_right _ (Nat.log2_self_le hn)

end LeastSquares.Double
