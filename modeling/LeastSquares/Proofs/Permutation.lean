import Mathlib
import LeastSquares.Proofs.Damping
import LeastSquares.Proofs.Step

/-! # Parameters in another order

The factorization eliminates the parameters in their order, so another order leads to another
triangle. But whether there is a triangle is a question of positive definiteness, which does not
depend on the order, and a positive definite system has only one solution. So the step of the
reordered equations is the reordered step, with the same denominator.
-/

namespace LeastSquares

open Matrix

variable {α : Type} {m n : Nat}

/-- The components in another order: component `i` is the old component `σ i`. -/
def permuted {β : Type} (σ : Equiv.Perm (Fin n)) (v : Vector β n) : Vector β n :=
  .ofFn fun i => v.get (σ i)

@[simp] theorem get_permuted {β : Type} (σ : Equiv.Perm (Fin n)) (v : Vector β n) (i : Fin n) :
    (permuted σ v).get i = v.get (σ i) :=
  get_ofFn ..

theorem get_permuted_eq {β : Type} (σ : Equiv.Perm (Fin n)) (v : Vector β n) :
    (permuted σ v).get = v.get ∘ σ := by
  funext i
  exact get_permuted σ v i

theorem perm_toList_permuted {β : Type} (σ : Equiv.Perm (Fin n)) (v : Vector β n) :
    (permuted σ v).toList.Perm v.toList := by
  rw [permuted, Vector.toList_ofFn, toList_eq_ofFn]
  exact σ.ofFn_comp_perm v.get

namespace Mat

/-- The columns in another order. -/
def permuteColumns (a : Mat α m n) (σ : Equiv.Perm (Fin n)) : Mat α m n :=
  .ofFn fun i j => a.entry i (σ j)

/-- Rows and columns in the same other order. -/
def permute (a : Mat α n n) (σ : Equiv.Perm (Fin n)) : Mat α n n :=
  .ofFn fun i j => a.entry (σ i) (σ j)

@[simp] theorem entry_permute (a : Mat α n n) (σ : Equiv.Perm (Fin n)) (i j : Fin n) :
    (a.permute σ).entry i j = a.entry (σ i) (σ j) :=
  entry_ofFn ..

theorem column_permuteColumns (a : Mat α m n) (σ : Equiv.Perm (Fin n)) (j : Fin n) :
    (a.permuteColumns σ).column j = a.column (σ j) := by
  apply ext_get
  intro i
  simp [permuteColumns]

theorem diagonal_permute (a : Mat α n n) (σ : Equiv.Perm (Fin n)) :
    (a.permute σ).diagonal = permuted σ a.diagonal := by
  apply ext_get
  intro i
  simp

theorem toMatrix_permute (a : Mat α n n) (σ : Equiv.Perm (Fin n)) :
    (a.permute σ).toMatrix = a.toMatrix.submatrix σ σ := by
  ext i j
  exact a.entry_permute σ i j

theorem toMatrix_permute_transpose {a : Mat α n n} (ha : a.toMatrixᵀ = a.toMatrix)
    (σ : Equiv.Perm (Fin n)) : (a.permute σ).toMatrixᵀ = (a.permute σ).toMatrix := by
  rw [toMatrix_permute, transpose_submatrix, ha]

variable [Scalar α]

theorem gram_permuteColumns (a : Mat α m n) (σ : Equiv.Perm (Fin n)) :
    (a.permuteColumns σ).gram = a.gram.permute σ := by
  apply ext_entry
  intro i j
  simp [gram, column_permuteColumns]

theorem transposeMulVec_permuteColumns (a : Mat α m n) (σ : Equiv.Perm (Fin n)) (v : Vector α m) :
    (a.permuteColumns σ).transposeMulVec v = permuted σ (a.transposeMulVec v) := by
  apply ext_get
  intro j
  simp [transposeMulVec, column_permuteColumns]

end Mat

theorem DampingStyle.vector_permute [Scalar α] (style : DampingStyle) (mu : α) (a : Mat α n n)
    (σ : Equiv.Perm (Fin n)) : style.vector mu (a.permute σ) = permuted σ (style.vector mu a) := by
  apply ext_get
  intro i
  cases style with
  | identity => simp
  | diagonal => simp

def Step.permute (step : Step α n) (σ : Equiv.Perm (Fin n)) : Step α n :=
  ⟨permuted σ step.move, step.denominator⟩

variable [ExactScalar α]

theorem Scalar.largest?_perm {l l' : List α} (hperm : l.Perm l') : largest? l = largest? l' := by
  rw [largest?_eq_max?, largest?_eq_max?]
  cases hmax : l'.max? with
  | none =>
      rw [List.max?_eq_none_iff] at hmax ⊢
      rwa [hmax, List.perm_nil] at hperm
  | some greatest =>
      rw [List.max?_eq_some_iff] at hmax ⊢
      exact ⟨hperm.mem_iff.mpr hmax.1, fun a ha => hmax.2 a (hperm.mem_iff.mp ha)⟩

theorem Damping.start?_permuted (tau : α) (σ : Equiv.Perm (Fin n)) (diagonal : Vector α n) :
    start? tau (permuted σ diagonal).toList = start? tau diagonal.toList := by
  rw [start?, start?, initialMu, initialMu, Scalar.largest?_perm (perm_toList_permuted σ diagonal)]

theorem PositiveDefinite.submatrix {s : Matrix (Fin n) (Fin n) α} (hs : PositiveDefinite s)
    (σ : Equiv.Perm (Fin n)) : PositiveDefinite (s.submatrix σ σ) := by
  intro v hv
  have hne : v ∘ σ.symm ≠ 0 := by
    intro hzero
    apply hv
    funext i
    simpa using congrFun hzero (σ i)
  rw [submatrix_mulVec_equiv, ← comp_equiv_symm_dotProduct]
  exact hs _ hne

theorem positiveDefinite_submatrix_iff (s : Matrix (Fin n) (Fin n) α) (σ : Equiv.Perm (Fin n)) :
    PositiveDefinite (s.submatrix σ σ) ↔ PositiveDefinite s := by
  constructor
  · intro hs
    simpa using hs.submatrix σ.symm
  · intro hs
    exact hs.submatrix σ

theorem Mat.toMatrix_permute_add_diagonal (a : Mat α n n) (d : Vector α n)
    (σ : Equiv.Perm (Fin n)) :
    (a.permute σ).toMatrix + Matrix.diagonal (permuted σ d).get =
      (a.toMatrix + Matrix.diagonal d.get).submatrix σ σ := by
  rw [submatrix_add, Pi.add_apply, Pi.add_apply, submatrix_diagonal_equiv, toMatrix_permute,
    get_permuted_eq]

namespace Step

variable {gram : Mat α n n} {gradient damping : Vector α n} {step step' : Step α n}

/-- Reordered equations have a step exactly if the equations have. -/
theorem damped?_permute_isSome_iff (hgram : gram.toMatrixᵀ = gram.toMatrix)
    (gradient damping : Vector α n) (σ : Equiv.Perm (Fin n)) :
    (damped? (gram.permute σ) (permuted σ gradient) (permuted σ damping)).isSome ↔
      (damped? gram gradient damping).isSome := by
  rw [damped?_isSome_iff (Mat.toMatrix_permute_transpose hgram σ), damped?_isSome_iff hgram,
    Mat.toMatrix_permute_add_diagonal, positiveDefinite_submatrix_iff]

/-- The reordered move solves the reordered equations, and nothing else does. -/
theorem move_eq_permuted (hgram : gram.toMatrixᵀ = gram.toMatrix) (σ : Equiv.Perm (Fin n))
    (hstep : damped? gram gradient damping = some step)
    (hstep' : damped? (gram.permute σ) (permuted σ gradient) (permuted σ damping) = some step') :
    step'.move = permuted σ step.move := by
  have hget : step'.move.get = (permuted σ step.move).get := by
    apply move_eq_of_equations (Mat.toMatrix_permute_transpose hgram σ) hstep'
    calc
      ((gram.permute σ).toMatrix + diagonal (permuted σ damping).get) *ᵥ (permuted σ step.move).get
        = ((gram.toMatrix + diagonal damping.get) *ᵥ step.move.get) ∘ σ := by
        rw [Mat.toMatrix_permute_add_diagonal, submatrix_mulVec_equiv, get_permuted_eq,
          Function.comp_assoc, Equiv.self_comp_symm, Function.comp_id]
      _ = -(permuted σ gradient).get := by
        rw [normal_equations hgram hstep, get_permuted_eq]
        rfl
  exact ext_get fun i => congrFun hget i

theorem denominator_eq_of_permuted (hgram : gram.toMatrixᵀ = gram.toMatrix)
    (σ : Equiv.Perm (Fin n)) (hstep : damped? gram gradient damping = some step)
    (hstep' : damped? (gram.permute σ) (permuted σ gradient) (permuted σ damping) = some step') :
    step'.denominator = step.denominator := by
  rw [denominator_eq hstep', denominator_eq hstep, move_eq_permuted hgram σ hstep hstep',
    get_permuted_eq, get_permuted_eq, get_permuted_eq]
  exact comp_equiv_dotProduct_comp_equiv step.move.get
    (damping.get * step.move.get - gradient.get) σ

/-- The step for reordered equations is the reordered step. -/
theorem damped?_permute (hgram : gram.toMatrixᵀ = gram.toMatrix) (gradient damping : Vector α n)
    (σ : Equiv.Perm (Fin n)) :
    damped? (gram.permute σ) (permuted σ gradient) (permuted σ damping) =
      (damped? gram gradient damping).map fun step => step.permute σ := by
  have hsome := damped?_permute_isSome_iff hgram gradient damping σ
  cases hstep : damped? gram gradient damping with
  | none =>
      rw [hstep] at hsome
      simpa using hsome
  | some step =>
      rw [hstep] at hsome
      obtain ⟨step', hstep'⟩ := Option.isSome_iff_exists.mp (hsome.mpr rfl)
      obtain ⟨move, denominator⟩ := step'
      obtain rfl := move_eq_permuted hgram σ hstep hstep'
      obtain rfl := denominator_eq_of_permuted hgram σ hstep hstep'
      exact hstep'

end Step

end LeastSquares
