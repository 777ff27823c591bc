import Mathlib
import LeastSquares.Equations
import LeastSquares.Proofs.Linear.Cholesky

/-! # Symmetric systems in exact arithmetic

A system is solved from the lower triangle of its matrix alone, so what stands above the diagonal
has no say in the outcome. There is a solution to return exactly if the symmetric matrix with this
triangle is positive definite, and it is the only one that the system has. The one other outcome is
a fault of the factorization. So it is with damped equations, whose step is the one of a solve.
-/

namespace LeastSquares

open Matrix

variable {α : Type} {n : Nat}

/-- The two matrices agree on and below the diagonal. -/
def Mat.SameTriangle (a b : Mat α n n) : Prop := ∀ i j, j ≤ i → a.entry i j = b.entry i j

namespace Mat.SameTriangle

section Column

variable {a b : Mat α (n + 1) (n + 1)}

theorem corner_eq (h : a.SameTriangle b) : a.corner = b.corner := h 0 0 (Fin.le_refl 0)

theorem below_eq (h : a.SameTriangle b) : a.below = b.below := by
  apply ext_get
  intro i
  rw [get_below, get_below]
  exact h i.succ 0 (Fin.zero_le _)

theorem deflate [Scalar α] (h : a.SameTriangle b) (u : Vector α n) :
    (a.deflate u).SameTriangle (b.deflate u) := by
  intro i j hle
  rw [Mat.deflate, Mat.deflate, entry_ofFn, entry_ofFn,
    h i.succ j.succ (Fin.succ_le_succ_iff.mpr hle)]

end Column

variable {a b : Mat α n n}

/-- The factorization reads the lower triangle only. -/
theorem cholesky?_eq [Scalar α] (h : a.SameTriangle b) : a.cholesky? = b.cholesky? := by
  induction n with
  | zero => rfl
  | succ n ih =>
      unfold cholesky?
      rw [h.corner_eq, h.below_eq]
      dsimp only
      rw [ih (h.deflate _)]

end Mat.SameTriangle

theorem Mat.isSymm_mirrored (a : Mat α n n) : a.mirrored.IsSymm := by
  ext i j
  change (if i ≤ j then a.entry j i else a.entry i j) = if j ≤ i then a.entry i j else a.entry j i
  rcases lt_trichotomy i j with hlt | rfl | hlt
  · rw [if_pos hlt.le, if_neg (not_le.mpr hlt)]
  · rfl
  · rw [if_neg (not_le.mpr hlt), if_pos hlt.le]

namespace Equations

variable [Scalar α] {a : Mat α n n} {b : Vector α n}

/-- Where the sizes fit, only the factorization can fail. -/
theorem solve_eq (a : Mat α n n) (b : Vector α n) :
    solve ⟨n, a, n, b⟩ = (a.solve? b).elim (.error (.notPositiveDefinite n)) .ok := by
  unfold solve Mat.solve?
  dsimp only
  cases a.cholesky? with
  | none => rfl
  | some l =>
      dsimp only
      rw [l.solveAny?_eq_solve]
      rfl

/-- Where the sizes fit, the step of such equations is the one that a solve takes. -/
theorem step_eq (gram : Mat α n n) (gradient damping : Vector α n) :
    step ⟨n, gram, n, gradient⟩ damping.toList =
      (Step.damped? gram gradient damping).elim (.error (.notPositiveDefinite n)) .ok := by
  unfold step Step.damped?
  dsimp only
  rw [spread?_toList]
  dsimp only
  rw [solve_eq]
  cases (gram.addDiagonal damping).solve? (negated gradient) with
  | none => rfl
  | some h => rfl

theorem solve_eq_ok_iff {x : Vector α n} :
    solve ⟨n, a, n, b⟩ = .ok x ↔ a.solve? b = some x := by
  rw [solve_eq]
  cases a.solve? b with
  | none => simp
  | some y => simp

theorem eq_of_solve_eq_error {fault : Fault α} (hfault : solve ⟨n, a, n, b⟩ = .error fault) :
    fault = .notPositiveDefinite n := by
  rw [solve_eq] at hfault
  cases hsolve : a.solve? b with
  | none =>
      rw [hsolve] at hfault
      cases hfault
      rfl
  | some x =>
      rw [hsolve] at hfault
      cases hfault

theorem solve_congr {a' : Mat α n n} (h : a.SameTriangle a') :
    solve ⟨n, a', n, b⟩ = solve ⟨n, a, n, b⟩ := by
  rw [solve_eq, solve_eq, Mat.solve?, Mat.solve?, h.cholesky?_eq]

end Equations

variable [ExactScalar α]

/-- A system has a solution to return exactly if the symmetric matrix with its lower triangle is
positive definite. That is then the one solution of the system with the symmetric matrix. A system
that is not solved is reported as such, and what stands above the diagonal makes no difference to
any of this. -/
theorem Equations.solve_ok_iff_positiveDefinite (a : Mat α n n) (b : Vector α n) :
    let outcome := solve ⟨n, a, n, b⟩
    a.mirrored.IsSymm ∧
    ((∃ x, outcome = .ok x) ↔ PositiveDefinite a.mirrored) ∧
    (∀ x, outcome = .ok x →
      a.mirrored *ᵥ x.get = b.get ∧ ∀ y, a.mirrored *ᵥ y = b.get → y = x.get) ∧
    (∀ fault, outcome = .error fault →
      fault = .notPositiveDefinite n ∧ fault.kind = .linearAlgebra) ∧
    ∀ a' : Mat α n n, a.SameTriangle a' → solve ⟨n, a', n, b⟩ = outcome := by
  intro outcome
  refine ⟨a.isSymm_mirrored, ?_, ?_, ?_, fun a' => solve_congr⟩
  · rw [← a.solve?_isSome_iff b, Option.isSome_iff_exists]
    exact exists_congr fun x => solve_eq_ok_iff
  · intro x hx
    have hsolved := solve_eq_ok_iff.mp hx
    have hpositive : PositiveDefinite a.mirrored := by
      rw [← a.solve?_isSome_iff b, hsolved]
      rfl
    have hequation := Mat.mirrored_mulVec_of_solve? hsolved
    refine ⟨hequation, ?_⟩
    intro y hy
    exact hpositive.mulVec_injective (hy.trans hequation.symm)
  · intro fault hfault
    obtain rfl := eq_of_solve_eq_error hfault
    exact ⟨rfl, rfl⟩

/-- An entry above the diagonal that belongs to another matrix does no harm. -/
theorem Equations.solve_with_stray_entry :
    let a : Mat ℝ 2 2 := .ofFn ![![4, 7], ![2, 3]]
    PositiveDefinite a.mirrored ∧
      ∃ x, (⟨2, a, 2, #v[2, 1]⟩ : Equations ℝ).solve = .ok x ∧ x.get 0 = 1 / 2 ∧ x.get 1 = 0 := by
  intro a
  have hmirrored : a.mirrored = !![4, 2; 2, 3] := by
    ext i j
    fin_cases i <;> fin_cases j <;> simp [a, Mat.mirrored]
  have hpositive : PositiveDefinite a.mirrored := by
    intro v hv
    have hform : v ⬝ᵥ a.mirrored *ᵥ v = (2 * v 0 + v 1) ^ 2 + 2 * v 1 ^ 2 := by
      simp [hmirrored, mulVec, dotProduct, Fin.sum_univ_two]
      ring
    rw [hform]
    by_contra hnot
    have hsecond : v 1 = 0 := by nlinarith [sq_nonneg (2 * v 0 + v 1), sq_nonneg (v 1)]
    have hfirst : v 0 = 0 := by nlinarith [sq_nonneg (v 0)]
    apply hv
    funext i
    fin_cases i
    · exact hfirst
    · exact hsecond
  obtain ⟨_, hsolved, hsolution, _⟩ := solve_ok_iff_positiveDefinite a #v[2, 1]
  obtain ⟨x, hx⟩ := hsolved.mpr hpositive
  have hy : a.mirrored *ᵥ ![1 / 2, 0] = (#v[2, 1] : Vector ℝ 2).get := by
    funext i
    fin_cases i <;> norm_num [hmirrored, mulVec, dotProduct, Fin.sum_univ_two, Vector.get]
  have heq := (hsolution x hx).2 _ hy
  exact ⟨hpositive, x, hx, (congrFun heq 0).symm, (congrFun heq 1).symm⟩

end LeastSquares
