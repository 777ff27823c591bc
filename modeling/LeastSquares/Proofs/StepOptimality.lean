import Mathlib
import LeastSquares.Proofs.Step

/-! # What a step is best at

In exact arithmetic a damped step is the one move at which the squared length of the predicted
residuals, together with the damping form of the move, is smallest. So among the moves that the
damping charges no more for, none predicts shorter residuals. The denominator of the gain ratio is
the decrease that the linear model alone predicts for the step. That is more, by the damping form of
the step, than the decrease of what the step minimizes.
-/

namespace LeastSquares

open Matrix

variable {α : Type} {m n : Nat}

/-- The residuals that the linear model predicts for a move. -/
def Mat.predicted [Scalar α] (a : Mat α m n) (f : Vector α m) (move : Vector α n) : Vector α m :=
  plus f (a.mulVec move)

variable [ExactScalar α]

/-- What damping charges for a move. -/
def dampingForm (damping move : Vector α n) : α :=
  ∑ i, damping.get i * (move.get i * move.get i)

/-- The squared length of the predicted residuals, and what damping charges on top of it. -/
def dampedCost (a : Mat α m n) (f : Vector α m) (damping move : Vector α n) : α :=
  dot (a.predicted f move) (a.predicted f move) + dampingForm damping move

section Quadratic

variable (a : Mat α m n) (f : Vector α m) (damping : Vector α n)

theorem get_predicted (move : Vector α n) :
    (a.predicted f move).get = f.get + a.toMatrix *ᵥ move.get := by
  rw [Mat.predicted, get_plus_eq_add, Mat.get_mulVec]

/-- The damped cost is a quadratic function of the move, with the damped matrix as its form. -/
theorem dampedCost_eq (move : Vector α n) :
    dampedCost a f damping move = f.get ⬝ᵥ f.get + 2 * (move.get ⬝ᵥ a.toMatrixᵀ *ᵥ f.get) +
      move.get ⬝ᵥ (a.toMatrixᵀ * a.toMatrix + diagonal damping.get) *ᵥ move.get := by
  rw [dampedCost, dot_eq_dotProduct, get_predicted, form_add_diagonal, dotProduct_gram,
    dotProduct_transpose_mulVec, add_dotProduct, dotProduct_add, dotProduct_add,
    dotProduct_comm (a.toMatrix *ᵥ move.get) f.get, dampingForm]
  ring

end Quadratic

/-- The form of a difference, for a symmetric matrix. -/
theorem form_sub {s : Matrix (Fin n) (Fin n) α} (hs : s.IsSymm) (v w : Fin n → α) :
    (v - w) ⬝ᵥ s *ᵥ (v - w) = v ⬝ᵥ s *ᵥ v - 2 * (v ⬝ᵥ s *ᵥ w) + w ⬝ᵥ s *ᵥ w := by
  have hswap : w ⬝ᵥ s *ᵥ v = v ⬝ᵥ s *ᵥ w := by
    rw [dotProduct_mulVec, ← mulVec_transpose, hs.eq, dotProduct_comm]
  rw [mulVec_sub, sub_dotProduct, dotProduct_sub, dotProduct_sub, hswap]
  ring

namespace Step

variable {a : Mat α m n} {f : Vector α m} {damping : Vector α n} {step : Step α n}

theorem gram_equations (hstep : damped? a.gram (a.transposeMulVec f) damping = some step) :
    (a.toMatrixᵀ * a.toMatrix + diagonal damping.get) *ᵥ step.move.get =
      -(a.toMatrixᵀ *ᵥ f.get) := by
  rw [← Mat.toMatrix_gram, ← Mat.get_transposeMulVec]
  exact normal_equations a.toMatrix_gram_transpose hstep

/-- Away from the step the damped cost grows by the damped form of the way. -/
theorem dampedCost_eq_add (hstep : damped? a.gram (a.transposeMulVec f) damping = some step)
    (move : Vector α n) :
    dampedCost a f damping move = dampedCost a f damping step.move +
      (move.get - step.move.get) ⬝ᵥ (a.toMatrixᵀ * a.toMatrix + diagonal damping.get) *ᵥ
        (move.get - step.move.get) := by
  have hsymm : (a.toMatrixᵀ * a.toMatrix + diagonal damping.get).IsSymm := by
    rw [IsSymm, transpose_add, transpose_mul, transpose_transpose, diagonal_transpose]
  rw [dampedCost_eq, dampedCost_eq, form_sub hsymm, gram_equations hstep, dotProduct_neg,
    dotProduct_neg]
  ring

theorem dampedCost_lt (hstep : damped? a.gram (a.transposeMulVec f) damping = some step)
    {move : Vector α n} (hmove : move ≠ step.move) :
    dampedCost a f damping step.move < dampedCost a f damping move := by
  have hpositive := positiveDefinite_of_step a.toMatrix_gram_transpose hstep
  rw [Mat.toMatrix_gram] at hpositive
  have hway : move.get - step.move.get ≠ 0 := by
    rw [sub_ne_zero]
    exact fun heq => hmove (ext_get (congrFun heq))
  rw [dampedCost_eq_add hstep move]
  exact lt_add_of_pos_right _ (hpositive _ hway)

/-- No move that the damping charges at most as much for predicts shorter residuals. -/
theorem norm_predicted_le (hstep : damped? a.gram (a.transposeMulVec f) damping = some step)
    {move : Vector α n} (hmove : dampingForm damping move ≤ dampingForm damping step.move) :
    norm (a.predicted f step.move).toList ≤ norm (a.predicted f move).toList := by
  rw [norm_le_norm_iff, ← dot_eq_dotProduct, ← dot_eq_dotProduct]
  rcases eq_or_ne move step.move with rfl | hne
  · exact le_rfl
  · have hcost := dampedCost_lt hstep hne
    rw [dampedCost, dampedCost] at hcost
    linarith

theorem denominator_eq_sub_predicted
    (hstep : damped? a.gram (a.transposeMulVec f) damping = some step) :
    step.denominator =
      dot f f - dot (a.predicted f step.move) (a.predicted f step.move) := by
  rw [dot_eq_dotProduct, dot_eq_dotProduct, get_predicted]
  exact denominator_eq_decrease hstep

end Step

/-- Damping may leave out a parameter whose own column is not zero. -/
theorem Step.exists_damped?_partly :
    let a : Mat ℝ 1 2 := .ofFn ![![1, 0]]
    a.toMatrixᵀ *ᵥ (#v[2] : Vector ℝ 1).get = ![2, 0] ∧
      ∃ step, damped? a.gram (a.transposeMulVec #v[2]) #v[0, 1] = some step ∧
        step.move.get = ![-2, 0] := by
  intro a
  have hgradient : a.toMatrixᵀ *ᵥ (#v[2] : Vector ℝ 1).get = ![2, 0] := by
    funext i
    fin_cases i <;> simp [a, mulVec, dotProduct, Vector.get]
  have hmatrix : a.toMatrixᵀ * a.toMatrix + diagonal (#v[0, 1] : Vector ℝ 2).get = 1 := by
    ext i j
    fin_cases i <;> fin_cases j <;> simp [a, mul_apply, Vector.get]
  have hsome : (damped? a.gram (a.transposeMulVec #v[2]) #v[0, 1]).isSome := by
    rw [damped?_isSome_iff a.toMatrix_gram_transpose, Mat.toMatrix_gram, hmatrix]
    intro v hv
    rw [one_mulVec]
    exact (dotProduct_self_nonneg v).lt_of_ne' (mt dotProduct_self_eq_zero.mp hv)
  obtain ⟨step, hstep⟩ := Option.isSome_iff_exists.mp hsome
  refine ⟨hgradient, step, hstep, ?_⟩
  have hequations := gram_equations hstep
  rw [hmatrix, one_mulVec, hgradient] at hequations
  rw [hequations]
  simp

/-- A step solves the damped normal equations and is the unique minimum of the damped cost. Within
the region that its own damping form spans, no move predicts residuals of smaller length. The step
leaves the point in place only where there is no gradient. -/
theorem Step.minimizes_dampedCost (a : Mat α m n) (f : Vector α m) (damping : Vector α n)
    {step : Step α n} (hstep : damped? a.gram (a.transposeMulVec f) damping = some step) :
    (a.toMatrixᵀ * a.toMatrix + diagonal damping.get) *ᵥ step.move.get =
      -(a.toMatrixᵀ *ᵥ f.get) ∧
    (∀ move, move ≠ step.move →
      dampedCost a f damping step.move < dampedCost a f damping move) ∧
    (∀ move, dampingForm damping move ≤ dampingForm damping step.move →
      norm (a.predicted f step.move).toList ≤ norm (a.predicted f move).toList) ∧
    (step.move.get = 0 ↔ a.toMatrixᵀ *ᵥ f.get = 0) := by
  refine ⟨gram_equations hstep, fun _ => dampedCost_lt hstep, fun _ => norm_predicted_le hstep, ?_⟩
  rw [← Mat.get_transposeMulVec]
  exact move_eq_zero_iff hstep

/-- With the second parameter damped alone, the step goes all the way in the first one. -/
theorem Step.minimizes_dampedCost_partly :
    let a : Mat ℝ 1 2 := .ofFn ![![1, 0]]
    ∃ step, damped? a.gram (a.transposeMulVec #v[2]) #v[0, 1] = some step ∧
      step.move.get = ![-2, 0] ∧
      dampedCost a #v[2] #v[0, 1] step.move < dampedCost a #v[2] #v[0, 1] #v[0, 0] := by
  intro a
  obtain ⟨_, step, hstep, hmove⟩ := exists_damped?_partly
  obtain ⟨_, hminimum, _⟩ := minimizes_dampedCost a #v[2] #v[0, 1] hstep
  refine ⟨step, hstep, hmove, hminimum _ ?_⟩
  intro heq
  have hfirst := congrFun hmove 0
  rw [← heq] at hfirst
  norm_num [Vector.get] at hfirst

/-- The denominator of a step is the decrease of the squared length of the residuals that the linear
model predicts, which is the squared length of the predicted change and twice the damping form. It
is more than the decrease of the damped cost, by the damping form. It is not negative, and zero only
where there is no gradient. -/
theorem Step.denominator_predicts (a : Mat α m n) (f : Vector α m) (damping : Vector α n)
    {step : Step α n} (hdamping : ∀ i, 0 ≤ damping.get i)
    (hstep : damped? a.gram (a.transposeMulVec f) damping = some step) :
    step.denominator = dot f f - dot (a.predicted f step.move) (a.predicted f step.move) ∧
    step.denominator = dot (a.mulVec step.move) (a.mulVec step.move) +
      2 * dampingForm damping step.move ∧
    step.denominator = dot f f - dampedCost a f damping step.move +
      dampingForm damping step.move ∧
    0 ≤ step.denominator ∧
    (step.denominator = 0 ↔ a.toMatrixᵀ *ᵥ f.get = 0) := by
  have hdecrease := denominator_eq_sub_predicted hstep
  refine ⟨hdecrease, ?_, ?_, denominator_nonneg hdamping hstep, ?_⟩
  · rw [dot_eq_dotProduct, Mat.get_mulVec]
    exact denominator_eq_sq_add hstep
  · rw [hdecrease, dampedCost]
    ring
  · rw [← Mat.get_transposeMulVec]
    exact denominator_eq_zero_iff hdamping hstep

/-- With the second parameter damped alone, all of the squared length is predicted to go. -/
theorem Step.denominator_predicts_partly :
    let a : Mat ℝ 1 2 := .ofFn ![![1, 0]]
    (∀ i, 0 ≤ (#v[0, 1] : Vector ℝ 2).get i) ∧
      ∃ step, damped? a.gram (a.transposeMulVec #v[2]) #v[0, 1] = some step ∧
        step.denominator = 4 := by
  intro a
  have hdamping : ∀ i, 0 ≤ (#v[0, 1] : Vector ℝ 2).get i := by
    intro i
    fin_cases i <;> simp [Vector.get]
  obtain ⟨_, step, hstep, hmove⟩ := exists_damped?_partly
  obtain ⟨hdecrease, _⟩ := denominator_predicts a #v[2] #v[0, 1] hdamping hstep
  refine ⟨hdamping, step, hstep, ?_⟩
  rw [hdecrease, dot_eq_dotProduct, dot_eq_dotProduct, get_predicted, hmove]
  norm_num [a, mulVec, dotProduct, Fin.sum_univ_two, Vector.get]

end LeastSquares
