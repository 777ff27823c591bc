import Mathlib
import LeastSquares.Damping
import LeastSquares.Proofs.Exact

/-! # Adaptive damping in exact arithmetic

Whatever the gain ratios are, the damping factor stays positive, and so do the growth factor and the
floor. With a denominator that is not negative, a gain ratio is positive exactly if the cost has
become lower and the denominator is positive.
-/

namespace LeastSquares.Damping

variable {α : Type} [ExactScalar α]

/-- What every damping that a solve comes to has in common. -/
structure Positive (d : Damping α) : Prop where
  mu_pos : 0 < d.mu
  nu_pos : 0 < d.nu
  floor_pos : 0 < d.floor

variable {d : Damping α}

theorem positive_of_start? {tau : α} {diagonal : List α} (hstart : start? tau diagonal = some d) :
    d.Positive := by
  unfold start? at hstart
  dsimp only at hstart
  split at hstart
  · cases hstart
  next hlarge =>
    cases hstart
    refine ⟨Scalar.epsilon_pos.trans_le (not_lt.mp hlarge), ?_, ?_⟩
    · rw [Scalar.two_eq]
      exact zero_lt_two
    · rw [Scalar.ratio_eq]
      norm_num

/-- If there is no damping to start with, the greatest diagonal entry is too small for it. -/
theorem exists_greatest_of_start?_eq_none {tau : α} {n : Nat} {diagonal : Vector α n} (hn : n ≠ 0)
    (hnone : start? tau diagonal.toList = none) :
    ∃ greatest, IsGreatest (Set.range diagonal.get) greatest ∧
      tau * greatest < Scalar.epsilon := by
  have hsmall := (start?_eq_none_iff tau diagonal.toList).mp hnone
  rw [initialMu, Scalar.largest?_eq_max?] at hsmall
  cases hmax : diagonal.toList.max? with
  | none =>
      have hlength := congrArg List.length (List.max?_eq_none_iff.mp hmax)
      rw [Vector.length_toList] at hlength
      exact absurd hlength hn
  | some greatest =>
      obtain ⟨hmem, hle⟩ := List.max?_eq_some_iff.mp hmax
      rw [hmax] at hsmall
      refine ⟨greatest, ⟨?_, ?_⟩, hsmall⟩
      · obtain ⟨i, hi, heq⟩ := Vector.mem_iff_getElem.mp (Vector.mem_toList_iff.mp hmem)
        exact ⟨⟨i, hi⟩, heq⟩
      · rintro _ ⟨i, rfl⟩
        exact hle _ (Vector.mem_toList_iff.mpr (Vector.getElem_mem i.isLt))

/-- One diagonal entry that is large enough gives a damping to start with. -/
theorem exists_start? {tau : α} (htau : 0 ≤ tau) {n : Nat} {diagonal : Vector α n} (i : Fin n)
    (hlarge : Scalar.epsilon ≤ tau * diagonal.get i) :
    ∃ d, start? tau diagonal.toList = some d := by
  cases hstart : start? tau diagonal.toList with
  | some d => exact ⟨d, rfl⟩
  | none =>
      obtain ⟨greatest, ⟨_, hbound⟩, hsmall⟩ :=
        exists_greatest_of_start?_eq_none (Nat.ne_of_gt i.pos) hstart
      have hle : tau * diagonal.get i ≤ tau * greatest :=
        mul_le_mul_of_nonneg_left (hbound ⟨i, rfl⟩) htau
      exact absurd (hlarge.trans hle) (not_le.mpr hsmall)

/-- In exact arithmetic the factor to start with is a multiple of a maximum. -/
theorem initialMu_cons (tau a : α) (l : List α) : initialMu tau (a :: l) = tau * l.foldl max a := by
  rw [initialMu, Scalar.largest?_cons, Option.getD_some]

theorem start?_eq_some {tau mu : α} {diagonal : List α} (hmu : initialMu tau diagonal = mu)
    (hlarge : Scalar.epsilon ≤ mu) :
    start? tau diagonal = some ⟨mu, 2, 1 / 1000000000000⟩ := by
  unfold start?
  dsimp only
  rw [hmu, if_neg (not_lt.mpr hlarge), Scalar.two_eq, Scalar.ratio_eq, Nat.cast_one, Nat.cast_ofNat]

theorem Positive.accept (hd : d.Positive) (rho : α) : (d.accept rho).Positive := by
  refine ⟨?_, ?_, hd.floor_pos⟩
  · rw [Damping.accept, Scalar.larger_eq_max]
    exact lt_max_of_lt_left hd.floor_pos
  · rw [Damping.accept, Scalar.two_eq]
    exact zero_lt_two

theorem Positive.reject (hd : d.Positive) : d.reject.Positive := by
  refine ⟨mul_pos hd.mu_pos hd.nu_pos, ?_, hd.floor_pos⟩
  rw [Damping.reject, Scalar.two_eq]
  exact mul_pos hd.nu_pos zero_lt_two

@[simp] theorem nu_accept (d : Damping α) (rho : α) : (d.accept rho).nu = 2 :=
  Scalar.two_eq

@[simp] theorem floor_accept (d : Damping α) (rho : α) : (d.accept rho).floor = d.floor :=
  rfl

@[simp] theorem floor_reject (d : Damping α) : d.reject.floor = d.floor :=
  rfl

/-- The factor after an acceptance, from which all bounds on it follow. -/
theorem mu_accept (d : Damping α) (rho : α) :
    (d.accept rho).mu = max d.floor (d.mu * max (1 / 3) (1 - (2 * rho - 1) ^ 3)) := by
  have hcube : cube (2 * rho - 1) = (2 * rho - 1) ^ 3 := by
    rw [cube]
    ring
  simp [accept, hcube]

/-- A step that does exactly what was predicted shrinks the damping by a factor of three. -/
theorem mu_accept_one (d : Damping α) : (d.accept 1).mu = max d.floor (d.mu / 3) := by
  rw [mu_accept]
  norm_num [div_eq_mul_inv]

theorem gainRatio_pos_iff {cost newCost denominator : α} (hdenominator : 0 ≤ denominator) :
    0 < gainRatio cost newCost denominator ↔ 0 < denominator ∧ newCost < cost := by
  rw [gainRatio, div_pos_iff, sub_pos]
  constructor
  · rintro (⟨hlower, hpos⟩ | ⟨_, hneg⟩)
    · exact ⟨hpos, hlower⟩
    · exact absurd hdenominator (not_le.mpr hneg)
  · rintro ⟨hpos, hlower⟩
    exact Or.inl ⟨hlower, hpos⟩

end LeastSquares.Damping
