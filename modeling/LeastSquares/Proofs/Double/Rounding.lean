import Mathlib
import LeastSquares.Proofs.Double.Order

/-! # Rounding to doubles

A mantissa that is too long is cut. Of the bits cut off two are kept: the first, and whether any
other is set. They say on which side of the middle between two mantissas the exact number lies, and
so which of the two is nearest. Rounding never turns the order of two exact numbers around, because
a larger number is cut at the same place or a higher one.
-/

namespace LeastSquares.Double

open Float.Model (UnpackedFloat Format totalExponent)
open Float.Model.UnpackedFloat (Sign Accuracy ExtendedMantissa shiftToTargetExponent
  roundWithAccuracy)

/-! ### Cutting a mantissa -/

/-- The number `x` lies where a mantissa and its two further bits say. -/
def Stands (cut : ExtendedMantissa) (x : ℚ) : Prop :=
  match cut.roundBit, cut.stickyBit with
  | false, false => x = cut.mantissa
  | false, true => cut.mantissa < x ∧ x < cut.mantissa + 1 / 2
  | true, false => x = cut.mantissa + 1 / 2
  | true, true => cut.mantissa + 1 / 2 < x ∧ x < cut.mantissa + 1

namespace Stands

variable {cut cut' : ExtendedMantissa} {x y : ℚ}

theorem shiftRightOne (h : Stands cut x) : Stands cut.shiftRightOne (x / 2) := by
  obtain ⟨m, first, rest⟩ := cut
  have hparity : (m : ℚ) = 2 * (m / 2 : ℕ) + (m % 2 : ℕ) := by
    exact_mod_cast (Nat.div_add_mod m 2).symm
  rcases Nat.mod_two_eq_zero_or_one m with hm | hm <;> rw [hm] at hparity <;>
    cases first <;> cases rest <;>
    simp only [Stands, ExtendedMantissa.shiftRightOne, hm] at h ⊢
  all_goals norm_num at hparity h ⊢
  all_goals grind

theorem le (h : Stands cut x) : cut.mantissa ≤ x := by
  obtain ⟨m, first, rest⟩ := cut
  cases first <;> cases rest <;> simp only [Stands] at h ⊢ <;> grind

theorem lt (h : Stands cut x) : x < cut.mantissa + 1 := by
  obtain ⟨m, first, rest⟩ := cut
  cases first <;> cases rest <;> simp only [Stands] at h ⊢ <;> grind

end Stands

theorem le_roundedMantissa (cut : ExtendedMantissa) :
    cut.mantissa ≤ cut.roundedMantissa ∧ cut.roundedMantissa ≤ cut.mantissa + 1 := by
  obtain ⟨m, first, rest⟩ := cut
  cases first <;> cases rest <;>
    simp only [ExtendedMantissa.roundedMantissa, ExtendedMantissa.accuracy,
      Accuracy.roundToNearestEven] <;> omega

theorem Stands.roundedMantissa_le {cut cut' : ExtendedMantissa} {x y : ℚ} (h : Stands cut x)
    (h' : Stands cut' y) (hle : x ≤ y) : cut.roundedMantissa ≤ cut'.roundedMantissa := by
  have hmantissa : cut.mantissa ≤ cut'.mantissa := by
    have hlt : (cut.mantissa : ℚ) < cut'.mantissa + 1 := (h.le.trans hle).trans_lt h'.lt
    exact Nat.lt_succ_iff.mp (by exact_mod_cast hlt)
  rcases hmantissa.lt_or_eq with hlt | heq
  · have hrounded := (le_roundedMantissa cut).2
    have hrounded' := (le_roundedMantissa cut').1
    omega
  · -- With the same mantissa the further bits decide.
    obtain ⟨m, first, rest⟩ := cut
    obtain ⟨m', first', rest'⟩ := cut'
    obtain rfl : m = m' := heq
    cases first <;> cases rest <;> cases first' <;> cases rest' <;>
      simp only [Stands] at h h' <;>
      simp only [ExtendedMantissa.roundedMantissa, ExtendedMantissa.accuracy,
        Accuracy.roundToNearestEven]
    all_goals grind

/-- A mantissa with its last `k` bits cut off. -/
def cut (m k : ℕ) : ExtendedMantissa := ExtendedMantissa.ofMantissaAndAccuracy m .exact >>> k

theorem stands_cut (m k : ℕ) : Stands (cut m k) (m / 2 ^ k) := by
  induction k with
  | zero =>
      rw [pow_zero, div_one]
      rfl
  | succ k ih =>
      rw [pow_succ, ← div_div]
      exact ih.shiftRightOne

/-- The integer nearest to a mantissa divided by `2 ^ k`, the even one of two. -/
def nearest (m k : ℕ) : ℕ := (cut m k).roundedMantissa

section Nearest

variable {m m' k k' r : ℕ}

theorem nearest_le_nearest (hle : (m / 2 ^ k : ℚ) ≤ m' / 2 ^ k') : nearest m k ≤ nearest m' k' :=
  (stands_cut m k).roundedMantissa_le (stands_cut m' k') hle

theorem nearest_zero (m : ℕ) : nearest m 0 = m := rfl

theorem nearest_le (hle : m ≤ r * 2 ^ k) : nearest m k ≤ r := by
  rw [← nearest_zero r]
  apply nearest_le_nearest
  rw [pow_zero, div_one, div_le_iff₀ (by positivity)]
  exact_mod_cast hle

theorem le_nearest (hle : r * 2 ^ k ≤ m) : r ≤ nearest m k := by
  rw [← nearest_zero r]
  apply nearest_le_nearest
  rw [pow_zero, div_one, le_div_iff₀ (by positivity)]
  exact_mod_cast hle

end Nearest

/-! ### Where a number is cut -/

/-- The exponent that a number gets by rounding, before a carry. -/
def grid (m : ℕ) (e : ℤ) : ℤ := Format.binary64.targetExponent (totalExponent m e)

/-- The mantissa that a number gets by rounding, before a carry. -/
def coarse (m : ℕ) (e : ℤ) : ℕ := nearest m (grid m e - e).toNat

section Grid

variable {m m' : ℕ} {e e' : ℤ}

theorem grid_eq (m : ℕ) (e : ℤ) : grid m e = max (m.log2 + e - 52) (-1074) := by
  have hbits : Format.binary64.mantissaBits = 53 := rfl
  have hmin : Format.binary64.minExponent = -1074 := by decide
  rw [grid, Format.targetExponent, totalExponent, hbits, hmin]
  congr 1
  push_cast
  ring

theorem le_grid (m : ℕ) (e : ℤ) : -1074 ≤ grid m e := by
  rw [grid_eq]
  exact le_max_right _ _

theorem coarse_le (m : ℕ) (e : ℤ) : coarse m e ≤ 2 ^ 53 := by
  have hgrid := grid_eq m e
  apply nearest_le
  calc
    m ≤ 2 ^ (m.log2 + 1) := Nat.lt_log2_self.le
    _ ≤ 2 ^ (53 + (grid m e - e).toNat) := Nat.pow_le_pow_right two_pos (by omega)
    _ = 2 ^ 53 * 2 ^ (grid m e - e).toNat := pow_add ..

theorem le_coarse (hm : 0 < m) (he : e ≤ grid m e) (hlow : grid m e ≠ -1074) :
    2 ^ 52 ≤ coarse m e := by
  have hgrid := grid_eq m e
  apply le_nearest
  calc
    2 ^ 52 * 2 ^ (grid m e - e).toNat = 2 ^ (52 + (grid m e - e).toNat) := (pow_add ..).symm
    _ = 2 ^ m.log2 := by congr 1; omega
    _ ≤ m := Nat.log2_self_le hm.ne'

theorem shiftToTargetExponent_eq (m : ℕ) (e : ℤ) :
    shiftToTargetExponent .binary64 m e .exact =
      (cut m (grid m e - e).toNat, e + ((grid m e - e).toNat : ℤ)) :=
  rfl

/-- A mantissa that rounding made too long loses a zero, which does not change the number. -/
theorem carry_spec (hm : m ≤ 2 ^ 53) (he : -1074 ≤ e) (hnormal : 2 ^ 52 ≤ m ∨ e = -1074) :
    let carried := shiftToTargetExponent .binary64 m e .exact
    Fits carried.1.mantissa carried.2 ∧ place carried.1.mantissa carried.2 = place m e := by
  intro carried
  have hcarried : carried = (cut m (grid m e - e).toNat, e + ((grid m e - e).toNat : ℤ)) :=
    shiftToTargetExponent_eq m e
  have hgrid := grid_eq m e
  rcases hm.lt_or_eq with hlt | rfl
  · have hlog : m.log2 < 53 := by
      rcases Nat.eq_zero_or_pos m with rfl | hpos
      · decide
      · exact (Nat.log2_lt hpos.ne').mpr hlt
    have hshift : (grid m e - e).toNat = 0 := by omega
    rw [hcarried, hshift, Nat.cast_zero, add_zero]
    exact ⟨⟨hlt, he, hnormal⟩, rfl⟩
  · have hlog : (2 ^ 53 : ℕ).log2 = 53 := Nat.log2_two_pow
    have hshift : (grid (2 ^ 53) e - e).toNat = 1 := by omega
    have hmantissa : (cut (2 ^ 53) 1).mantissa = 2 ^ 52 := by decide
    rw [hcarried, hshift, hmantissa, Nat.cast_one]
    refine ⟨⟨by decide, by omega, Or.inl le_rfl⟩, ?_⟩
    simp only [place]
    push_cast
    ring

/-- The integer of a number after rounding. -/
theorem key?_round (s : Sign) (hm : 0 < m) (he : e ≤ grid m e) :
    key? (UnpackedFloat.unpack .binary64
        (UnpackedFloat.pack .binary64 (roundWithAccuracy .binary64 s m e .exact))) =
      some (s.apply (min (place (coarse m e) (grid m e)) top)) := by
  have hnormal : 2 ^ 52 ≤ coarse m e ∨ grid m e = -1074 := by
    by_cases hlow : grid m e = -1074
    · exact Or.inr hlow
    · exact Or.inl (le_coarse hm he hlow)
  obtain ⟨hfits, hplace⟩ := carry_spec (coarse_le m e) (le_grid m e) hnormal
  have hexponent : e + ((grid m e - e).toNat : ℤ) = grid m e := by omega
  unfold roundWithAccuracy
  rw [shiftToTargetExponent_eq, hexponent, ← hplace]
  dsimp only
  split
  next hzero =>
    change (shiftToTargetExponent .binary64 (coarse m e) (grid m e) .exact).1.mantissa = 0 at hzero
    rw [hzero] at hfits ⊢
    rw [key?_pack_zero, hfits.normal.resolve_left (by decide)]
    cases s <;> rfl
  next hnonzero =>
    exact key?_pack_finite s (Nat.pos_of_ne_zero hnonzero) hfits

/-! ### The order of exact numbers -/

/-- The number that a mantissa and an exponent stand for. -/
def size (m : ℕ) (e : ℤ) : ℚ := m * 2 ^ e

theorem size_mul (m₀ m : ℕ) (e₀ e : ℤ) : size (m₀ * m) (e₀ + e) = size m₀ e₀ * size m e := by
  unfold size
  rw [zpow_add₀ two_ne_zero, Nat.cast_mul]
  ring

theorem two_zpow_le_size (hm : 0 < m) : (2 : ℚ) ^ (m.log2 + e) ≤ size m e := by
  have hmantissa : (2 : ℚ) ^ m.log2 ≤ m := by exact_mod_cast Nat.log2_self_le hm.ne'
  rw [size, zpow_add₀ two_ne_zero, zpow_natCast]
  gcongr

theorem size_lt_two_zpow : size m e < (2 : ℚ) ^ (m.log2 + 1 + e) := by
  have hmantissa : (m : ℚ) < 2 ^ ((m.log2 : ℤ) + 1) := by
    exact_mod_cast (Nat.lt_log2_self : m < 2 ^ (m.log2 + 1))
  rw [size, zpow_add₀ two_ne_zero]
  gcongr

/-- What spells the larger integer is the larger number. -/
theorem size_le_size (hfits : Fits m e) (hfits' : Fits m' e') (hm' : 0 < m')
    (hle : place m e ≤ place m' e') : size m e ≤ size m' e' := by
  obtain hlt | ⟨rfl, hmantissa⟩ := (hfits.place_le_iff hfits').mp hle
  · -- Above the least exponent the leading bit is set.
    have hlow := hfits.low
    have hnormal : 2 ^ 52 ≤ m' := hfits'.normal.resolve_right (by omega)
    have hlog : (m'.log2 : ℤ) ≥ 52 := by exact_mod_cast (Nat.le_log2 hm'.ne').mpr hnormal
    calc
      size m e ≤ 2 ^ 53 * 2 ^ e := by
        have hshort : (m : ℚ) ≤ 2 ^ 53 := by exact_mod_cast hfits.lt.le
        unfold size
        gcongr
      _ = (2 : ℚ) ^ (53 + e) := by rw [zpow_add₀ two_ne_zero]; rfl
      _ ≤ (2 : ℚ) ^ (m'.log2 + e') := zpow_le_zpow_right₀ one_le_two (by omega)
      _ ≤ size m' e' := two_zpow_le_size hm'
  · have hcast : (m : ℚ) ≤ m' := by exact_mod_cast hmantissa
    unfold size
    gcongr

theorem grid_le_grid (hm : 0 < m) (hsize : size m e ≤ size m' e') : grid m e ≤ grid m' e' := by
  have hlog := (zpow_lt_zpow_iff_right₀ one_lt_two).mp
    (((two_zpow_le_size hm).trans hsize).trans_lt size_lt_two_zpow)
  rw [grid_eq, grid_eq]
  omega

theorem div_two_pow_eq {t : ℤ} (ht : e ≤ t) : (m / 2 ^ (t - e).toNat : ℚ) = size m e / 2 ^ t := by
  have hpow : (2 : ℚ) ^ (t - e).toNat = 2 ^ t / 2 ^ e := by
    rw [← zpow_sub₀ two_ne_zero, ← zpow_natCast, Int.toNat_of_nonneg (by omega)]
  rw [hpow, size]
  field_simp

/-- Rounding keeps the order. -/
theorem place_coarse_le (hm : 0 < m) (hm' : 0 < m') (he : e ≤ grid m e) (he' : e' ≤ grid m' e')
    (hsize : size m e ≤ size m' e') :
    place (coarse m e) (grid m e) ≤ place (coarse m' e') (grid m' e') := by
  have hlow := le_grid m e
  rcases (grid_le_grid hm hsize).lt_or_eq with hlt | heq
  · have hle := coarse_le m e
    have hge := le_coarse hm' he' (by omega)
    unfold place
    omega
  · have hcoarse : coarse m e ≤ coarse m' e' := by
      apply nearest_le_nearest
      rw [div_two_pow_eq he, div_two_pow_eq he', heq]
      gcongr
    unfold place
    omega

end Grid

end LeastSquares.Double
