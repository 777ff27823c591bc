import Mathlib
import LeastSquares.Proofs.Double.Rounding

/-! # The numbers that doubles stand for

A finite double stands for a rational number, and finite doubles are ordered as these numbers are.
The two zeros stand for the same one.
-/

namespace LeastSquares.Double

open Float.Model (UnpackedFloat Format)
open Float.Model.UnpackedFloat (Sign)

/-- The number that a finite value stands for. The other values stand for none and get zero. -/
def number : UnpackedFloat → ℚ
  | .notANumber => 0
  | .infinity _ => 0
  | .zero _ => 0
  | .finite .positive mantissa exponent _ => size mantissa exponent
  | .finite .negative mantissa exponent _ => -size mantissa exponent

def value (a : Float) : ℚ := number a.toModel.unpack

section Sizes

variable {m m' : ℕ} {e e' : ℤ}

theorem size_pos (hm : 0 < m) : 0 < size m e :=
  mul_pos (Nat.cast_pos.mpr hm) (zpow_pos two_pos e)

theorem Fits.grid_eq (hfits : Fits m e) (hm : 0 < m) : grid m e = e := by
  have hlow := hfits.low
  have hlog := hfits.log2_bounds hm
  rw [Double.grid_eq]
  omega

/-- What fits loses no bits. -/
theorem Fits.coarse_eq (hfits : Fits m e) (hm : 0 < m) : coarse m e = m := by
  rw [coarse, hfits.grid_eq hm, sub_self]
  exact nearest_zero m

/-- Places are ordered as the numbers that they belong to. -/
theorem Fits.place_le_iff_size_le (hfits : Fits m e) (hfits' : Fits m' e') (hm : 0 < m)
    (hm' : 0 < m') : place m e ≤ place m' e' ↔ size m e ≤ size m' e' := by
  constructor
  · exact size_le_size hfits hfits' hm'
  · intro hsize
    have hplace := place_coarse_le hm hm' (hfits.grid_eq hm).ge (hfits'.grid_eq hm').ge hsize
    rwa [hfits.coarse_eq hm, hfits.grid_eq hm, hfits'.coarse_eq hm', hfits'.grid_eq hm'] at hplace

end Sizes

theorem unpacked_le_iff_number {u v : UnpackedFloat} (hu : Proper u) (hv : Proper v)
    (hfinite : u.isFinite = true) (hfinite' : v.isFinite = true) :
    u.le v = true ↔ number u ≤ number v := by
  rw [unpacked_le_iff_key hu hv]
  rcases u with s | _ | s | ⟨s, m, e, hm⟩
  · exact absurd hfinite Bool.false_ne_true
  · exact absurd hfinite Bool.false_ne_true
  · rcases v with t | _ | t | ⟨t, m', e', hm'⟩
    · exact absurd hfinite' Bool.false_ne_true
    · exact absurd hfinite' Bool.false_ne_true
    · simp [key?, number]
    · have hplace := hv.1.place_pos hm'
      have hsize : 0 < size m' e' := size_pos hm'
      cases t
      · simp [key?, number, Sign.apply, hplace.not_ge, hsize.not_ge]
      · simp [key?, number, Sign.apply, hplace.le, hsize.le]
  · have hplace := hu.1.place_pos hm
    have hsize : 0 < size m e := size_pos hm
    rcases v with t | _ | t | ⟨t, m', e', hm'⟩
    · exact absurd hfinite' Bool.false_ne_true
    · exact absurd hfinite' Bool.false_ne_true
    · cases s
      · simp [key?, number, Sign.apply, hplace.le, hsize.le]
      · simp [key?, number, Sign.apply, hplace.not_ge, hsize.not_ge]
    · have hplace' := hv.1.place_pos hm'
      have hsize' : 0 < size m' e' := size_pos hm'
      -- Between numbers of the same sign the mantissas and exponents decide.
      cases s <;> cases t <;>
        simp only [key?, number, Sign.apply, Option.mem_def, Option.some.injEq, exists_eq_left']
      · rw [neg_le_neg_iff, neg_le_neg_iff, hv.1.place_le_iff_size_le hu.1 hm' hm]
      · constructor <;> intro _ <;> linarith
      · constructor <;> intro _ <;> linarith
      · exact hu.1.place_le_iff_size_le hv.1 hm hm'

/-- Finite doubles compare as the numbers that they stand for. -/
theorem le_iff_value {a b : Float} (ha : a.isFinite = true) (hb : b.isFinite = true) :
    a ≤ b ↔ value a ≤ value b := by
  have hle : a ≤ b ↔ a.toModel.unpack.le b.toModel.unpack = true := decide_eq_true_iff
  exact hle.trans (unpacked_le_iff_number (proper_unpack _) (proper_unpack _) ha hb)

end LeastSquares.Double
