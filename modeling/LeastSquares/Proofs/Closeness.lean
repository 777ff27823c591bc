import Mathlib
import LeastSquares.Closeness
import LeastSquares.Proofs.Linear.Matrix

/-! # Laws of closeness

In exact arithmetic the gap between two arrays of one shape does not depend on which comes first. By
the triangle inequality the relative gap is at most two, since neither array is longer than the one
it is measured by. It is a gap of directions rather than of units: it stays when both arrays are
multiplied by the same number, unless they are too short to be measured by themselves.
-/

namespace LeastSquares

open Matrix Scalar

variable {α : Type}

/-- Lists of one length are the components of vectors. -/
theorem exists_toList_eq {a b : List α} (hlength : a.length = b.length) :
    ∃ (k : Nat) (u v : Vector α k), u.toList = a ∧ v.toList = b :=
  ⟨_, ⟨a.toArray, rfl⟩, ⟨b.toArray, hlength.symm⟩, rfl, rfl⟩

/-- An array with every entry multiplied by `c`. -/
def Tensor.scaled [Scalar α] (c : α) (a : Tensor α) : Tensor α :=
  ⟨a.shape, a.entries.map fun x => c * x, by rw [List.length_map, a.length_entries]⟩

theorem Tensor.length_entries_eq {a b : Tensor α} (hshape : a.shape = b.shape) :
    a.entries.length = b.entries.length := by
  rw [a.length_entries, b.length_entries, hshape]

theorem Tensor.eq_iff {a b : Tensor α} (hshape : a.shape = b.shape) :
    a = b ↔ a.entries = b.entries := by
  obtain ⟨_, _, _⟩ := a
  obtain ⟨_, _, _⟩ := b
  cases hshape
  rw [Tensor.mk.injEq]
  exact and_iff_right rfl

variable [ExactScalar α] {k : Nat}

/-! ### Lengths of vectors -/

theorem norm_eq_zero_iff (v : Vector α k) : norm v.toList = 0 ↔ v.get = 0 := by
  rw [← mul_self_eq_zero, norm_mul_self, dotProduct_self_eq_zero]

theorem abs_dotProduct_le (u v : Vector α k) :
    |u.get ⬝ᵥ v.get| ≤ norm u.toList * norm v.toList := by
  refine abs_le_of_sq_le_sq ?_ (mul_nonneg (norm_nonneg _) (norm_nonneg _))
  calc
    (u.get ⬝ᵥ v.get) ^ 2 ≤ (u.get ⬝ᵥ u.get) * (v.get ⬝ᵥ v.get) := sq_dotProduct_le _ _
    _ = (norm u.toList * norm v.toList) ^ 2 := by
      rw [← norm_mul_self, ← norm_mul_self]
      ring

/-- The triangle inequality. -/
theorem norm_minus_le (u v : Vector α k) :
    norm (minus u v).toList ≤ norm u.toList + norm v.toList := by
  refine abs_le_of_sq_le_sq' ?_ (add_nonneg (norm_nonneg _) (norm_nonneg _)) |>.2
  have hmixed := neg_le_of_abs_le (abs_dotProduct_le u v)
  calc
    norm (minus u v).toList ^ 2 = u.get ⬝ᵥ u.get - 2 * (u.get ⬝ᵥ v.get) + v.get ⬝ᵥ v.get := by
      rw [sq, norm_mul_self, get_minus_eq_sub, sub_dotProduct, dotProduct_sub, dotProduct_sub,
        dotProduct_comm v.get u.get]
      ring
    _ ≤ u.get ⬝ᵥ u.get + 2 * (norm u.toList * norm v.toList) + v.get ⬝ᵥ v.get := by linarith
    _ = (norm u.toList + norm v.toList) ^ 2 := by
      rw [← norm_mul_self, ← norm_mul_self]
      ring

theorem norm_minus_comm (u v : Vector α k) : norm (minus u v).toList = norm (minus v u).toList := by
  apply norm_eq_of_mul_self (norm_nonneg _)
  rw [norm_mul_self, get_minus_eq_sub, get_minus_eq_sub, ← neg_sub v.get, neg_dotProduct_neg]

theorem norm_map_mul (c : α) (v : Vector α k) :
    norm (v.toList.map fun x => c * x) = |c| * norm v.toList := by
  rw [← Vector.toList_map]
  apply norm_eq_of_mul_self (mul_nonneg (abs_nonneg c) (norm_nonneg _))
  have hget : (v.map fun x => c * x).get = c • v.get := funext fun i => get_map ..
  rw [hget, smul_dotProduct, dotProduct_smul, smul_eq_mul, smul_eq_mul, mul_mul_mul_comm,
    norm_mul_self, abs_mul_abs_self, mul_assoc]

/-! ### Gaps -/

namespace Gap

variable {a b : List α}

theorem relative_between (u v : Vector α k) :
    (between u.toList v.toList).relative =
      norm (minus u v).toList / max (max (norm u.toList) (norm v.toList)) epsilon := by
  show norm _ / larger (larger _ _) _ = _
  rw [larger_eq_max, larger_eq_max, zipWith_sub_toList]

theorem between_comm (hlength : a.length = b.length) : between a b = between b a := by
  obtain ⟨k, u, v, rfl, rfl⟩ := exists_toList_eq hlength
  unfold between
  dsimp only
  rw [zipWith_sub_toList, zipWith_sub_toList, norm_minus_comm, larger_eq_max, larger_eq_max,
    larger_eq_max, larger_eq_max, max_comm (norm u.toList)]

/-- What a relative gap is measured by. -/
theorem scale_pos (a b : List α) : 0 < max (max (norm a) (norm b)) epsilon :=
  lt_max_of_lt_right epsilon_pos

theorem relative_nonneg (hlength : a.length = b.length) : 0 ≤ (between a b).relative := by
  obtain ⟨k, u, v, rfl, rfl⟩ := exists_toList_eq hlength
  rw [relative_between]
  exact div_nonneg (norm_nonneg _) (scale_pos _ _).le

theorem relative_le_two (hlength : a.length = b.length) : (between a b).relative ≤ 2 := by
  obtain ⟨k, u, v, rfl, rfl⟩ := exists_toList_eq hlength
  rw [relative_between, div_le_iff₀ (scale_pos _ _)]
  have hu : norm u.toList ≤ max (max (norm u.toList) (norm v.toList)) epsilon :=
    le_max_of_le_left (le_max_left ..)
  have hv : norm v.toList ≤ max (max (norm u.toList) (norm v.toList)) epsilon :=
    le_max_of_le_left (le_max_right ..)
  calc
    norm (minus u v).toList ≤ norm u.toList + norm v.toList := norm_minus_le u v
    _ ≤ 2 * max (max (norm u.toList) (norm v.toList)) epsilon := by linarith

theorem relative_eq_zero_iff (hlength : a.length = b.length) :
    (between a b).relative = 0 ↔ a = b := by
  obtain ⟨k, u, v, rfl, rfl⟩ := exists_toList_eq hlength
  rw [relative_between, div_eq_zero_iff, or_iff_left (scale_pos _ _).ne', norm_eq_zero_iff,
    get_minus_eq_sub, sub_eq_zero, Vector.toList_inj]
  exact ⟨fun hget => ext_get (congrFun hget), congrArg Vector.get⟩

/-- Lists that are long enough to be measured by themselves, before and after they are scaled. -/
theorem relative_map_mul (hlength : a.length = b.length) {c : α} (hc : c ≠ 0)
    (hlong : epsilon ≤ max (norm a) (norm b))
    (hlong' : epsilon ≤ max (norm (a.map fun x => c * x)) (norm (b.map fun x => c * x))) :
    (between (a.map fun x => c * x) (b.map fun x => c * x)).relative = (between a b).relative := by
  obtain ⟨k, u, v, rfl, rfl⟩ := exists_toList_eq hlength
  have hminus : minus (u.map fun x => c * x) (v.map fun x => c * x) =
      (minus u v).map fun x => c * x := by
    apply ext_get
    intro i
    rw [get_minus, get_map, get_map, get_map, get_minus, mul_sub]
  rw [← Vector.toList_map, ← Vector.toList_map] at hlong' ⊢
  rw [relative_between, relative_between, max_eq_left hlong, max_eq_left hlong', hminus,
    Vector.toList_map, Vector.toList_map, Vector.toList_map, norm_map_mul, norm_map_mul,
    norm_map_mul, ← mul_max_of_nonneg _ _ (abs_nonneg c), mul_div_mul_left _ _ (abs_pos.mpr hc).ne']

/-- Measured by something longer than one, a gap shrinks. -/
theorem relative_le_absolute (hlong : 1 ≤ max (norm a) (norm b)) :
    (between a b).relative ≤ (between a b).absolute := by
  show norm _ / larger (larger _ _) _ ≤ norm _
  rw [larger_eq_max, larger_eq_max]
  exact div_le_self (norm_nonneg _) (hlong.trans (le_max_left ..))

end Gap

/-! ### Checks -/

namespace Tensor

theorem gap_eq {a b : Tensor α} (hshape : a.shape = b.shape) :
    a.gap b = .ok (.between a.entries b.entries) :=
  if_pos hshape

/-- What a check says of a gap, at a tolerance that more gaps satisfy the larger it is. -/
theorem check_laws (test : α → Gap α → Bool)
    (hmono : ∀ tolerance tolerance' g, tolerance ≤ tolerance' → test tolerance g = true →
      test tolerance' g = true) (a b : Tensor α) (tolerance : α) :
    ((∃ fault, (a.gap b).map (test tolerance) = .error fault) ↔ a.shape ≠ b.shape) ∧
    (a.shape = b.shape → (a.gap b).map (test tolerance) = (b.gap a).map (test tolerance)) ∧
    ∀ tolerance', tolerance ≤ tolerance' → (a.gap b).map (test tolerance) = .ok true →
      (a.gap b).map (test tolerance') = .ok true := by
  by_cases hshape : a.shape = b.shape
  · rw [gap_eq hshape, gap_eq hshape.symm, Gap.between_comm (length_entries_eq hshape)]
    refine ⟨⟨nofun, fun hne => absurd hshape hne⟩, fun _ => rfl, ?_⟩
    intro tolerance' hle hpassed
    exact congrArg Except.ok (hmono _ _ _ hle (Except.ok.inj hpassed))
  · have hfault : a.gap b = .error (.unlikeShapes a.shape b.shape) := if_neg hshape
    rw [hfault]
    exact ⟨⟨fun _ => hshape, fun _ => ⟨_, rfl⟩⟩, fun heq => absurd heq hshape, nofun⟩

/-- Closeness in exact arithmetic. Every check fails exactly for arrays of unlike shapes. Otherwise
it does not matter which array comes first, a check that is passed is passed at every larger
tolerance, and arrays are close if they are so in one of the two senses. The relative gap lies
between zero, for equal arrays only, and two, and does not depend on the unit of arrays that are not
negligible. For arrays that are not both shorter than one, closeness in the absolute sense is the
stronger one. -/
theorem closeness_laws (a b : Tensor α) :
    (∀ check ∈ [near, nearAbsolutely, nearRelatively], ∀ tolerance : α,
      ((∃ fault, check a b tolerance = .error fault) ↔ a.shape ≠ b.shape) ∧
      (a.shape = b.shape → check a b tolerance = check b a tolerance) ∧
      ∀ tolerance', tolerance ≤ tolerance' → check a b tolerance = .ok true →
        check a b tolerance' = .ok true) ∧
    (∀ tolerance, a.near b tolerance = .ok true ↔
      a.nearAbsolutely b tolerance = .ok true ∨ a.nearRelatively b tolerance = .ok true) ∧
    (a.shape = b.shape →
      ∃ g, a.gap b = .ok g ∧ 0 ≤ g.relative ∧ g.relative ≤ 2 ∧ (g.relative = 0 ↔ a = b) ∧
      (∀ tolerance, 2 ≤ tolerance → a.nearRelatively b tolerance = .ok true) ∧
      (∀ c ≠ 0, epsilon ≤ max (norm a.entries) (norm b.entries) →
        epsilon ≤ max (norm (a.scaled c).entries) (norm (b.scaled c).entries) →
        ∃ g', (a.scaled c).gap (b.scaled c) = .ok g' ∧ g'.relative = g.relative) ∧
      (1 ≤ max (norm a.entries) (norm b.entries) → ∀ tolerance,
        a.nearAbsolutely b tolerance = .ok true → a.nearRelatively b tolerance = .ok true)) := by
  refine ⟨?_, ?_, ?_⟩
  · intro check hcheck tolerance
    obtain rfl | rfl | rfl : check = near ∨ check = nearAbsolutely ∨ check = nearRelatively := by
      simpa using hcheck
    · refine check_laws (fun t g => g.within t t) (fun t t' g hle hpassed => ?_) a b tolerance
      simp only [Gap.within, Bool.or_eq_true, decide_eq_true_eq] at hpassed ⊢
      exact hpassed.imp (·.trans hle) (·.trans hle)
    · refine check_laws (fun t g => decide (g.absolute ≤ t)) (fun t t' g hle hpassed => ?_) a b
        tolerance
      exact decide_eq_true ((of_decide_eq_true hpassed).trans hle)
    · refine check_laws (fun t g => decide (g.relative ≤ t)) (fun t t' g hle hpassed => ?_) a b
        tolerance
      exact decide_eq_true ((of_decide_eq_true hpassed).trans hle)
  · intro tolerance
    unfold near nearAbsolutely nearRelatively
    cases a.gap b with
    | error fault => simp [Except.map]
    | ok g => simp [Except.map, Gap.within]
  · intro hshape
    have hlength := length_entries_eq hshape
    refine ⟨_, gap_eq hshape, Gap.relative_nonneg hlength, Gap.relative_le_two hlength, ?_, ?_, ?_,
      ?_⟩
    · rw [eq_iff hshape, Gap.relative_eq_zero_iff hlength]
    · intro tolerance htwo
      rw [nearRelatively, gap_eq hshape]
      exact congrArg Except.ok (decide_eq_true ((Gap.relative_le_two hlength).trans htwo))
    · intro c hc hlong hlong'
      exact ⟨_, gap_eq hshape, Gap.relative_map_mul hlength hc hlong hlong'⟩
    · intro hlong tolerance hpassed
      rw [nearAbsolutely, gap_eq hshape] at hpassed
      have habsolute := of_decide_eq_true (Except.ok.inj hpassed)
      rw [nearRelatively, gap_eq hshape]
      exact congrArg Except.ok
        (decide_eq_true ((Gap.relative_le_absolute hlong).trans habsolute))

/-- An array and its opposite have the largest relative gap there is. -/
theorem closeness_laws_of_opposites :
    let a : Tensor ℝ := .ofList [3, 4]
    let b : Tensor ℝ := .ofList [-3, -4]
    a.nearAbsolutely b 10 = .ok true ∧ a.nearRelatively b 10 = .ok true ∧
      ∃ g, a.gap b = .ok g ∧ g.relative = 2 ∧ a.nearRelatively b 2 = .ok true ∧
        ∃ g', (a.scaled (1 / 5)).gap (b.scaled (1 / 5)) = .ok g' ∧ g'.relative = 2 := by
  intro a b
  have hnorm : ∀ x y c : ℝ, 0 ≤ c → x * x + y * y = c * c → norm [x, y] = c := by
    intro x y c hc hsquare
    exact norm_eq_of_mul_self (v := #v[x, y]) hc (by simpa [dotProduct, Vector.get] using hsquare)
  have ha : norm a.entries = 5 := hnorm 3 4 5 (by norm_num) (by norm_num)
  have hb : norm b.entries = 5 := hnorm (-3) (-4) 5 (by norm_num) (by norm_num)
  have hdistance : norm (List.zipWith (· - ·) a.entries b.entries) = 10 :=
    hnorm (3 - -3) (4 - -4) 10 (by norm_num) (by norm_num)
  have ha' : norm (a.scaled (1 / 5)).entries = 1 :=
    hnorm (1 / 5 * 3) (1 / 5 * 4) 1 (by norm_num) (by norm_num)
  have hepsilon : (epsilon : ℝ) ≤ 1 := by
    rw [epsilon_eq]
    norm_num
  have hshape : a.shape = b.shape := rfl
  obtain ⟨_, _, hgap⟩ := closeness_laws a b
  obtain ⟨g, hg, _, _, _, htwo, hscaled, hlong⟩ := hgap hshape
  obtain rfl := Except.ok.inj ((gap_eq hshape).symm.trans hg)
  have hrelative : (Gap.between a.entries b.entries).relative = 2 := by
    show norm _ / larger (larger _ _) _ = 2
    rw [hdistance, ha, hb, larger_eq_max, larger_eq_max, max_self, max_eq_left (by linarith)]
    norm_num
  have habsolute : a.nearAbsolutely b 10 = .ok true := by
    rw [nearAbsolutely, hg]
    exact congrArg Except.ok (decide_eq_true hdistance.le)
  refine ⟨habsolute, hlong ?_ 10 habsolute, _, hg, hrelative, htwo 2 le_rfl, ?_⟩
  · rw [ha]
    exact le_max_of_le_left (by norm_num)
  · rw [← hrelative]
    refine hscaled (1 / 5) (by norm_num) ?_ ?_
    · rw [ha]
      exact le_max_of_le_left (by linarith)
    · rw [ha']
      exact le_max_of_le_left hepsilon

end Tensor

end LeastSquares
