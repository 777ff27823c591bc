import Mathlib
import LeastSquares.Proofs.Double.Rounding

/-! # Products of doubles

A positive factor keeps the order of doubles, although each product is rounded. Those that are too
large become infinite, those that are too small zero, and an infinite value stays infinite.
-/

namespace LeastSquares.Double

open Float.Model (UnpackedFloat Format)
open Float.Model.UnpackedFloat (Sign)

/-- The integer of the rounded product of two numbers that are positive. -/
def scaled (m₀ : ℕ) (e₀ : ℤ) (m : ℕ) (e : ℤ) : ℤ :=
  min (place (coarse (m₀ * m) (e₀ + e)) (grid (m₀ * m) (e₀ + e))) top

theorem unpack_mul (a b : Float) :
    (a * b).toModel.unpack = UnpackedFloat.unpack .binary64 (UnpackedFloat.pack .binary64
      (UnpackedFloat.mul .binary64 a.toModel.unpack b.toModel.unpack)) :=
  rfl

/-- A finite number above zero has a positive mantissa. -/
theorem unpack_of_positive {c : Float} (hc : Scalar.zero < c) (hfinite : c.isFinite = true) :
    ∃ m e hm, c.toModel.unpack = .finite .positive m e hm := by
  obtain ⟨p, hp, q, hq, hpq⟩ := (lt_iff _ c).mp hc
  rw [unpack_zero] at hp
  cases hp
  have hunpack : c.toModel.unpack.isFinite = true := hfinite
  cases hcase : c.toModel.unpack with
  | notANumber =>
      rw [hcase] at hunpack
      cases hunpack
  | infinity s =>
      rw [hcase] at hunpack
      cases hunpack
  | zero s =>
      rw [hcase] at hq
      cases hq
      exact absurd hpq (lt_irrefl _)
  | finite s m e hm =>
      cases s with
      | positive => exact ⟨m, e, hm, rfl⟩
      | negative =>
          rw [hcase] at hq
          cases hq
          exact absurd hpq (by simp [Prod.Lex.toLex_lt_toLex])

section Products

variable {m₀ m m' : ℕ} {e₀ e e' : ℤ}

/-- The exact product has all the bits that its rounding keeps. -/
theorem le_grid_mul (hfits₀ : Fits m₀ e₀) (hfits : Fits m e) (hm₀ : 0 < m₀) (hm : 0 < m) :
    e₀ + e ≤ grid (m₀ * m) (e₀ + e) := by
  have hgrid := grid_eq (m₀ * m) (e₀ + e)
  have hpos : m₀ * m ≠ 0 := (Nat.mul_pos hm₀ hm).ne'
  rcases hfits₀.normal with hlong | hlow
  · have hlog : 52 ≤ (m₀ * m).log2 :=
      (Nat.le_log2 hpos).mpr (hlong.trans (Nat.le_mul_of_pos_right m₀ hm))
    omega
  · rcases hfits.normal with hlong | hlow'
    · have hlog : 52 ≤ (m₀ * m).log2 :=
        (Nat.le_log2 hpos).mpr (hlong.trans (Nat.le_mul_of_pos_left m hm₀))
      omega
    · omega

theorem scaled_nonneg : 0 ≤ scaled m₀ e₀ m e :=
  le_min (place_nonneg (le_grid _ _)) (by decide)

theorem scaled_le_top : scaled m₀ e₀ m e ≤ top := min_le_right _ _

theorem scaled_le_scaled (hfits₀ : Fits m₀ e₀) (hm₀ : 0 < m₀) (hfits : Fits m e) (hm : 0 < m)
    (hfits' : Fits m' e') (hm' : 0 < m') (hle : place m e ≤ place m' e') :
    scaled m₀ e₀ m e ≤ scaled m₀ e₀ m' e' := by
  apply min_le_min_right
  apply place_coarse_le (Nat.mul_pos hm₀ hm) (Nat.mul_pos hm₀ hm')
    (le_grid_mul hfits₀ hfits hm₀ hm) (le_grid_mul hfits₀ hfits' hm₀ hm')
  have hsize := size_le_size hfits hfits' hm' hle
  have hfactor : 0 ≤ size m₀ e₀ := by
    unfold size
    positivity
  rw [size_mul, size_mul]
  gcongr

/-- What a positive finite factor makes of the integers of the values that are not negative. -/
inductive Scaled (m₀ : ℕ) (e₀ : ℤ) : ℤ → ℤ → Prop
  | zero : Scaled m₀ e₀ 0 0
  | finite {m : ℕ} {e : ℤ} (hfits : Fits m e) (he : e ≤ 971) (hm : 0 < m) :
      Scaled m₀ e₀ (place m e) (scaled m₀ e₀ m e)
  | infinite : Scaled m₀ e₀ top top

namespace Scaled

variable {p p' q q' : ℤ}

theorem nonneg (h : Scaled m₀ e₀ p p') : 0 ≤ p ∧ 0 ≤ p' := by
  cases h with
  | zero => exact ⟨le_rfl, le_rfl⟩
  | finite hfits => exact ⟨place_nonneg hfits.low, scaled_nonneg⟩
  | infinite => decide

theorem le (hfits₀ : Fits m₀ e₀) (hm₀ : 0 < m₀) (hp : Scaled m₀ e₀ p p') (hq : Scaled m₀ e₀ q q')
    (hle : p ≤ q) : p' ≤ q' := by
  cases hp with
  | zero => exact hq.nonneg.2
  | finite hfits he hm =>
      cases hq with
      | zero => exact absurd hle (not_le.mpr (hfits.place_pos hm))
      | finite hfits' he' hm' => exact scaled_le_scaled hfits₀ hm₀ hfits hm hfits' hm' hle
      | infinite => exact scaled_le_top
  | infinite =>
      cases hq with
      | zero => exact absurd hle (by decide)
      | finite hfits' he' hm' => exact absurd hle (not_le.mpr (hfits'.place_lt_top_iff.mpr he'))
      | infinite => exact le_rfl

/-- The order is kept with signs in front, too. -/
theorem apply_le (hfits₀ : Fits m₀ e₀) (hm₀ : 0 < m₀) (hp : Scaled m₀ e₀ p p')
    (hq : Scaled m₀ e₀ q q') {s t : Sign} (hle : s.apply p ≤ t.apply q) :
    s.apply p' ≤ t.apply q' := by
  obtain ⟨hnonneg, hnonneg'⟩ := hp.nonneg
  obtain ⟨hother, hother'⟩ := hq.nonneg
  cases s with
  | positive =>
      cases t with
      | positive => exact hp.le hfits₀ hm₀ hq hle
      | negative =>
          -- Only zeros are at most their own negatives.
          simp only [Sign.apply] at hle ⊢
          have hzero : p' ≤ 0 := hp.le hfits₀ hm₀ .zero (by omega)
          have hzero' : q' ≤ 0 := hq.le hfits₀ hm₀ .zero (by omega)
          omega
  | negative =>
      cases t with
      | positive =>
          simp only [Sign.apply]
          omega
      | negative => exact neg_le_neg (hq.le hfits₀ hm₀ hp (neg_le_neg_iff.mp hle))

end Scaled

theorem positive_mul (s : Sign) : Sign.positive * s = s := by
  cases s <;> rfl

/-- A product with a positive finite factor has the sign of the other one. -/
theorem exists_scaled {c a : Float} {hm₀ : 0 < m₀}
    (hc : c.toModel.unpack = .finite .positive m₀ e₀ hm₀) {p : ℤ} (hp : p ∈ key? a.toModel.unpack) :
    ∃ s q q', p = Sign.apply s q ∧ Scaled m₀ e₀ q q' ∧
      key? (c * a).toModel.unpack = some (s.apply q') := by
  rw [unpack_mul, hc]
  cases ha : a.toModel.unpack with
  | notANumber =>
      rw [ha] at hp
      cases hp
  | infinity s =>
      rw [ha] at hp
      cases hp
      refine ⟨s, _, _, rfl, .infinite, ?_⟩
      rw [UnpackedFloat.mul, key?_pack_infinity, positive_mul]
  | zero s =>
      rw [ha] at hp
      cases hp
      exact ⟨.positive, _, _, rfl, .zero, key?_pack_zero _⟩
  | finite s m e hm =>
      rw [ha] at hp
      cases hp
      obtain ⟨hfits₀, _⟩ := fits_of_unpack hc
      obtain ⟨hfits, he⟩ := fits_of_unpack ha
      refine ⟨s, _, _, rfl, .finite hfits he hm, ?_⟩
      rw [UnpackedFloat.mul, positive_mul]
      exact key?_round s (Nat.mul_pos hm₀ hm) (le_grid_mul hfits₀ hfits hm₀ hm)

end Products

/-- A positive finite factor keeps the order. -/
theorem mul_le_mul_left {c a b : Float} (hpos : Scalar.zero < c) (hfinite : c.isFinite = true)
    (hle : a ≤ b) : c * a ≤ c * b := by
  obtain ⟨p, hp, q, hq, hpq⟩ := (le_iff_key a b).mp hle
  obtain ⟨m₀, e₀, hm₀, hc⟩ := unpack_of_positive hpos hfinite
  obtain ⟨s, p₀, p', rfl, hscaled, hproduct⟩ := exists_scaled hc hp
  obtain ⟨t, q₀, q', rfl, hscaled', hproduct'⟩ := exists_scaled hc hq
  refine (le_iff_key _ _).mpr ⟨_, hproduct, _, hproduct', ?_⟩
  exact hscaled.apply_le (fits_of_unpack hc).1 hm₀ hscaled' hpq

theorem mul_notANumber (u : UnpackedFloat) :
    UnpackedFloat.mul .binary64 u .notANumber = .notANumber := by
  cases u <;> rfl

/-- A factor does not make a number of what is none. -/
theorem number_of_mul_lt {c a b : Float} (hlt : c * a < b) : Scalar.isNaN a = false := by
  rw [Scalar.isNaN_eq_false_iff, le_iff_key]
  obtain ⟨p, hp, _⟩ := (lt_iff _ _).mp hlt
  cases hunpack : a.toModel.unpack with
  | notANumber =>
      have hproduct : (c * a).toModel.unpack = .notANumber := by
        rw [unpack_mul, hunpack, mul_notANumber, UnpackedFloat.pack, UnpackedFloat.unpack_packedNaN]
      rw [hproduct] at hp
      cases hp
  | _ => exact ⟨_, rfl, _, rfl, le_rfl⟩

end LeastSquares.Double
