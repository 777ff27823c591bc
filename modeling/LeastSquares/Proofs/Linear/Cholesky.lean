import Mathlib
import LeastSquares.Linear.Cholesky
import LeastSquares.Proofs.Linear.Matrix

/-! # Cholesky factorization in exact arithmetic

The factorization reads a matrix through its lower triangle, so it is about the symmetric matrix
that has this triangle. One column of it splits the quadratic form into a square and the form of the
deflated matrix. From this both halves follow by induction on the size: a factor exists exactly if
the symmetric matrix is positive definite, and the two triangular solves with it give a solution.
-/

namespace LeastSquares

open Matrix

variable {α : Type} {n : Nat}

/-- The symmetric matrix with the same lower triangle. -/
def Mat.mirrored (a : Mat α n n) : Matrix (Fin n) (Fin n) α :=
  Matrix.of fun i j => if j ≤ i then a.entry i j else a.entry j i

theorem Mat.mirrored_eq_toMatrix {a : Mat α n n} (ha : a.toMatrixᵀ = a.toMatrix) :
    a.mirrored = a.toMatrix := by
  ext i j
  change (if j ≤ i then a.entry i j else a.entry j i) = a.entry i j
  split
  · rfl
  · exact congrFun (congrFun ha i) j

variable [ExactScalar α]

theorem dotProduct_succ (v w : Fin (n + 1) → α) :
    v ⬝ᵥ w = v 0 * w 0 + Fin.tail v ⬝ᵥ Fin.tail w :=
  Fin.sum_univ_succ _

/-- What the factorization takes from the leading column: the root of the corner, and the column
below it divided by that root. -/
structure Mat.Pivot (a : Mat α (n + 1) (n + 1)) (root : α) (u : Vector α n) : Prop where
  root_pos : 0 < root
  square : root * root = a.corner
  column : ∀ i, a.below.get i = root * u.get i

namespace Mat

theorem exists_pivot {a : Mat α (n + 1) (n + 1)} (hcorner : 0 < a.corner) :
    ∃ root u, a.Pivot root u ∧ a.cholesky? = (a.deflate u).cholesky?.map (.cons root u) := by
  let root := Scalar.sqrt a.corner
  have hroot : 0 < root := Scalar.sqrt_pos hcorner
  refine ⟨root, a.below.map (· / root), ⟨hroot, Scalar.sqrt_mul_self hcorner, ?_⟩, ?_⟩
  · intro i
    rw [get_map, mul_div_cancel₀ _ hroot.ne']
  · rw [cholesky?, Scalar.zero_eq, if_pos hcorner]

theorem cholesky?_eq_none_of_corner {a : Mat α (n + 1) (n + 1)} (hcorner : ¬0 < a.corner) :
    a.cholesky? = none := by
  rw [cholesky?, Scalar.zero_eq, if_neg hcorner]

theorem mirrored_succ_succ (a : Mat α (n + 1) (n + 1)) (u : Vector α n) (i j : Fin n) :
    a.mirrored i.succ j.succ = (a.deflate u).mirrored i j + u.get i * u.get j := by
  simp only [mirrored, of_apply, Fin.succ_le_succ_iff, deflate, entry_ofFn]
  split
  · ring
  · ring

theorem mirrored_mulVec_zero (a : Mat α (n + 1) (n + 1)) (v : Fin (n + 1) → α) :
    (a.mirrored *ᵥ v) 0 = a.corner * v 0 + a.below.get ⬝ᵥ Fin.tail v := by
  have hrow : Fin.tail (a.mirrored 0) = a.below.get := by
    funext j
    simp [mirrored, Fin.tail]
  change a.mirrored 0 ⬝ᵥ v = _
  rw [dotProduct_succ, hrow]
  rfl

theorem tail_mirrored_mulVec (a : Mat α (n + 1) (n + 1)) (u : Vector α n)
    (v : Fin (n + 1) → α) :
    Fin.tail (a.mirrored *ᵥ v) = v 0 • a.below.get +
      (a.deflate u).mirrored *ᵥ Fin.tail v + (u.get ⬝ᵥ Fin.tail v) • u.get := by
  funext i
  have hhead : a.mirrored i.succ 0 = a.below.get i := by
    simp [mirrored]
  have hrow : Fin.tail (a.mirrored i.succ) = (a.deflate u).mirrored i + u.get i • u.get := by
    funext j
    exact mirrored_succ_succ a u i j
  change a.mirrored i.succ ⬝ᵥ v = v 0 * a.below.get i +
    (a.deflate u).mirrored i ⬝ᵥ Fin.tail v + (u.get ⬝ᵥ Fin.tail v) * u.get i
  rw [dotProduct_succ, hhead, hrow, add_dotProduct, smul_dotProduct, smul_eq_mul]
  ring

end Mat

namespace Mat.Pivot

variable {a : Mat α (n + 1) (n + 1)} {root : α} {u : Vector α n}

theorem below_eq (p : a.Pivot root u) : a.below.get = root • u.get := by
  funext i
  exact p.column i

/-- Completing the square with the leading column leaves the form of the deflated matrix. -/
theorem form_eq (p : a.Pivot root u) (v : Fin (n + 1) → α) :
    v ⬝ᵥ a.mirrored *ᵥ v = (root * v 0 + u.get ⬝ᵥ Fin.tail v) ^ 2 +
      Fin.tail v ⬝ᵥ (a.deflate u).mirrored *ᵥ Fin.tail v := by
  rw [dotProduct_succ, mirrored_mulVec_zero, tail_mirrored_mulVec a u, p.below_eq, ← p.square]
  simp only [dotProduct_add, dotProduct_smul, smul_dotProduct, smul_eq_mul]
  rw [dotProduct_comm (Fin.tail v) u.get]
  ring

theorem positiveDefinite_iff (p : a.Pivot root u) :
    PositiveDefinite a.mirrored ↔ PositiveDefinite (a.deflate u).mirrored := by
  constructor
  · intro ha w hw
    -- The leading component that makes the square vanish.
    let v : Fin (n + 1) → α := Fin.cons (-(u.get ⬝ᵥ w) / root) w
    have hv : v ≠ 0 := by
      intro hzero
      exact hw (congrArg Fin.tail hzero)
    have hform := ha v hv
    have hhead : root * v 0 + u.get ⬝ᵥ Fin.tail v = 0 := by
      change root * (-(u.get ⬝ᵥ w) / root) + u.get ⬝ᵥ w = 0
      rw [mul_div_cancel₀ _ p.root_pos.ne', neg_add_cancel]
    rw [p.form_eq, hhead, zero_pow two_ne_zero, zero_add] at hform
    exact hform
  · intro hdeflated v hv
    rw [p.form_eq]
    by_cases htail : Fin.tail v = 0
    · have hhead : v 0 ≠ 0 := by
        intro hzero
        apply hv
        funext i
        exact Fin.cases hzero (fun i => congrFun htail i) i
      rw [htail, dotProduct_zero, zero_dotProduct, add_zero, add_zero]
      exact sq_pos_of_ne_zero (mul_ne_zero p.root_pos.ne' hhead)
    · exact add_pos_of_nonneg_of_pos (sq_nonneg _) (hdeflated _ htail)

end Mat.Pivot

theorem Mat.corner_pos {a : Mat α (n + 1) (n + 1)} (ha : PositiveDefinite a.mirrored) :
    0 < a.corner := by
  let v : Fin (n + 1) → α := Fin.cons 1 0
  have hv : v ≠ 0 := fun hzero => one_ne_zero (congrFun hzero 0)
  have hform := ha v hv
  have htail : Fin.tail v = 0 := rfl
  have hhead : v 0 = 1 := rfl
  rw [dotProduct_succ, mirrored_mulVec_zero, htail, hhead] at hform
  simpa using hform

/-- There is a factor exactly if the symmetric matrix is positive definite. -/
theorem Mat.cholesky?_isSome_iff (a : Mat α n n) :
    a.cholesky?.isSome ↔ PositiveDefinite a.mirrored := by
  -- As the factorization goes: one column at a time, down to the matrix without rows.
  induction n with
  | zero =>
      constructor
      · intro _ v hv
        exact absurd (Subsingleton.elim v 0) hv
      · intro _
        rfl
  | succ n ih =>
      by_cases hcorner : 0 < a.corner
      · obtain ⟨root, u, hpivot, hfactor⟩ := exists_pivot hcorner
        rw [hfactor, Option.isSome_map, ih, hpivot.positiveDefinite_iff]
      · rw [cholesky?_eq_none_of_corner hcorner]
        constructor
        · intro hsome
          cases hsome
        · intro ha
          exact absurd (corner_pos ha) hcorner

namespace Triangle

/-- The leading component of a solution comes from the others, and these solve the rest of the
system when the leading column, times what the forward pass found, is taken out of it. -/
theorem solve_cons (root : α) (u : Vector α n) (rest : Triangle α n) (b : Vector α (n + 1)) :
    let y := b.get 0 / root
    let x := rest.solve (Vector.ofFn fun i => b.get i.succ - y * u.get i)
    (cons root u rest).solve b = prepend ((y - dot u x) / root) x := by
  intro y x
  have hrest : (Vector.ofFn fun i => ((cons root u rest).forward b).get i.succ) =
      rest.forward (Vector.ofFn fun i => b.get i.succ - y * u.get i) := by
    apply ext_get
    intro i
    rw [get_ofFn, forward, get_prepend_succ]
  rw [solve, backward, hrest, forward, get_prepend_zero]
  rfl

/-- Dividing by a factor solves the system it was made from. -/
theorem mirrored_mulVec_solve {a : Mat α n n} {l : Triangle α n} (hl : a.cholesky? = some l)
    (b : Vector α n) : a.mirrored *ᵥ (l.solve b).get = b.get := by
  induction n with
  | zero => exact Subsingleton.elim _ _
  | succ n ih =>
      have hcorner : 0 < a.corner := by
        by_contra hnot
        rw [Mat.cholesky?_eq_none_of_corner hnot] at hl
        exact nomatch hl
      obtain ⟨root, u, hpivot, hfactor⟩ := Mat.exists_pivot hcorner
      rw [hfactor] at hl
      obtain ⟨rest, hrest, rfl⟩ := Option.map_eq_some_iff.mp hl
      rw [solve_cons]
      let y := b.get 0 / root
      let x := rest.solve (Vector.ofFn fun i => b.get i.succ - y * u.get i)
      change a.mirrored *ᵥ (prepend ((y - dot u x) / root) x).get = b.get
      have hsolved := ih hrest (Vector.ofFn fun i => b.get i.succ - y * u.get i)
      have htail : Fin.tail (prepend ((y - dot u x) / root) x).get = x.get := by
        funext i
        exact get_prepend_succ _ x i
      have hlead : root * ((y - dot u x) / root) + u.get ⬝ᵥ x.get = y := by
        rw [mul_div_cancel₀ _ hpivot.root_pos.ne', dot_eq_dotProduct, sub_add_cancel]
      have hy : root * y = b.get 0 := mul_div_cancel₀ _ hpivot.root_pos.ne'
      -- Row zero is the equation of the leading component. The other rows are the deflated system,
      -- put back together with the leading column.
      funext i
      refine Fin.cases ?_ (fun i => ?_) i
      · rw [Mat.mirrored_mulVec_zero, htail, get_prepend_zero, hpivot.below_eq, ← hpivot.square,
          smul_dotProduct, smul_eq_mul, mul_assoc, ← mul_add, hlead, hy]
      · have hrow := congrFun (Mat.tail_mirrored_mulVec a u
          (prepend ((y - dot u x) / root) x).get) i
        rw [htail, get_prepend_zero, hsolved, hpivot.below_eq] at hrow
        simp only [Fin.tail, Pi.add_apply, Pi.smul_apply, smul_eq_mul, get_ofFn] at hrow
        rw [hrow]
        linear_combination u.get i * hlead

end Triangle

namespace Mat

theorem solve?_isSome_iff (a : Mat α n n) (b : Vector α n) :
    (a.solve? b).isSome ↔ PositiveDefinite a.mirrored := by
  rw [solve?, Option.isSome_map, cholesky?_isSome_iff]

theorem mirrored_mulVec_of_solve? {a : Mat α n n} {b x : Vector α n} (hx : a.solve? b = some x) :
    a.mirrored *ᵥ x.get = b.get := by
  obtain ⟨l, hl, rfl⟩ := Option.map_eq_some_iff.mp hx
  exact l.mirrored_mulVec_solve hl b

end Mat

end LeastSquares
