import Mathlib
import LeastSquares.Proofs.StepOptimality
import LeastSquares.Proofs.Stopping

/-! # What a negligible denominator certifies

Under identity damping, in exact arithmetic, the denominator of a step and the squared length of the
gradient bound each other. The constants are the damping factor and the trace of the Gauss-Newton
matrix, which is at least its greatest eigenvalue. So a solve that stops for a negligible
denominator has come to a small gradient, but how small depends on the damping that its rejections
have led to.
-/

namespace LeastSquares

open Matrix

variable {α : Type} [ExactScalar α] {m n : Nat}

section Trace

/-- The trace of `aᵀ a` bounds how much `a` can lengthen a vector. -/
theorem mulVec_sq_le_trace (a : Matrix (Fin m) (Fin n) α) (v : Fin n → α) :
    (a *ᵥ v) ⬝ᵥ (a *ᵥ v) ≤ (aᵀ * a).trace * (v ⬝ᵥ v) := by
  calc
    (a *ᵥ v) ⬝ᵥ (a *ᵥ v) ≤ ∑ i, (a i ⬝ᵥ a i) * (v ⬝ᵥ v) := by
      apply Finset.sum_le_sum
      intro i _
      rw [← sq]
      exact sq_dotProduct_le (a i) v
    _ = (a * aᵀ).trace * (v ⬝ᵥ v) := by
      rw [← Finset.sum_mul]
      rfl
    _ = (aᵀ * a).trace * (v ⬝ᵥ v) := by
      rw [trace_mul_comm]

theorem trace_gram_nonneg (a : Matrix (Fin m) (Fin n) α) : 0 ≤ (aᵀ * a).trace :=
  Finset.sum_nonneg fun j _ => dotProduct_self_nonneg (aᵀ j)

end Trace

namespace Step

variable {a : Mat α m n} {f : Vector α m} {mu : α} {step : Step α n}

theorem get_gradient_eq_of_identity
    (hstep : damped? a.gram (a.transposeMulVec f) (DampingStyle.identity.vector mu a.gram) =
      some step) :
    (a.transposeMulVec f).get =
      -(a.toMatrixᵀ *ᵥ (a.toMatrix *ᵥ step.move.get) + mu • step.move.get) := by
  have hdamping : diagonal (DampingStyle.identity.vector mu a.gram).get *ᵥ step.move.get =
      mu • step.move.get := by
    funext i
    simp [mulVec_diagonal]
  have hequations := gram_equations hstep
  rw [add_mulVec, hdamping, ← mulVec_mulVec] at hequations
  rw [Mat.get_transposeMulVec, hequations, neg_neg]

/-- The squared length of the gradient, in terms of the move and the predicted change. -/
theorem gradient_sq_eq
    (hstep : damped? a.gram (a.transposeMulVec f) (DampingStyle.identity.vector mu a.gram) =
      some step) :
    let change := a.toMatrix *ᵥ step.move.get
    dot (a.transposeMulVec f) (a.transposeMulVec f) =
      (a.toMatrixᵀ *ᵥ change) ⬝ᵥ (a.toMatrixᵀ *ᵥ change) + 2 * mu * (change ⬝ᵥ change) +
        mu ^ 2 * (step.move.get ⬝ᵥ step.move.get) := by
  intro change
  have hpair : step.move.get ⬝ᵥ (a.toMatrixᵀ *ᵥ change) = change ⬝ᵥ change :=
    dotProduct_transpose_mulVec ..
  rw [dot_eq_dotProduct, get_gradient_eq_of_identity hstep, neg_dotProduct_neg, add_dotProduct,
    dotProduct_add, dotProduct_add, dotProduct_smul, smul_dotProduct, smul_dotProduct,
    dotProduct_smul, dotProduct_comm (a.toMatrixᵀ *ᵥ change) step.move.get, hpair]
  simp only [smul_eq_mul]
  ring

theorem denominator_eq_of_identity
    (hstep : damped? a.gram (a.transposeMulVec f) (DampingStyle.identity.vector mu a.gram) =
      some step) :
    step.denominator = (a.toMatrix *ᵥ step.move.get) ⬝ᵥ (a.toMatrix *ᵥ step.move.get) +
      2 * mu * (step.move.get ⬝ᵥ step.move.get) := by
  rw [denominator_eq_sq_add hstep]
  simp only [DampingStyle.get_vector_identity, ← Finset.mul_sum, mul_assoc]
  rfl

/-- A small denominator means a small gradient. -/
theorem gradient_sq_le (hmu : 0 ≤ mu)
    (hstep : damped? a.gram (a.transposeMulVec f) (DampingStyle.identity.vector mu a.gram) =
      some step) :
    dot (a.transposeMulVec f) (a.transposeMulVec f) ≤
      (a.gram.toMatrix.trace + mu) * step.denominator := by
  let change := a.toMatrix *ᵥ step.move.get
  have hpulled : (a.toMatrixᵀ *ᵥ change) ⬝ᵥ (a.toMatrixᵀ *ᵥ change) ≤
      (a.toMatrixᵀ * a.toMatrix).trace * (change ⬝ᵥ change) := by
    rw [trace_mul_comm]
    exact mulVec_sq_le_trace a.toMatrixᵀ change
  have hchange : change ⬝ᵥ change ≤
      (a.toMatrixᵀ * a.toMatrix).trace * (step.move.get ⬝ᵥ step.move.get) :=
    mulVec_sq_le_trace a.toMatrix step.move.get
  have hdamped := mul_le_mul_of_nonneg_left hchange hmu
  have hmove := dotProduct_self_nonneg step.move.get
  have hcross := mul_nonneg (mul_nonneg hmu (trace_gram_nonneg a.toMatrix)) hmove
  have hsquare := mul_nonneg (sq_nonneg mu) hmove
  rw [gradient_sq_eq hstep, denominator_eq_of_identity hstep, a.toMatrix_gram]
  linarith

/-- A small gradient means a small denominator. -/
theorem mul_denominator_le (hmu : 0 ≤ mu)
    (hstep : damped? a.gram (a.transposeMulVec f) (DampingStyle.identity.vector mu a.gram) =
      some step) :
    mu * step.denominator ≤ 2 * dot (a.transposeMulVec f) (a.transposeMulVec f) := by
  have hpulled := dotProduct_self_nonneg (a.toMatrixᵀ *ᵥ (a.toMatrix *ᵥ step.move.get))
  have hchange := mul_nonneg hmu (dotProduct_self_nonneg (a.toMatrix *ᵥ step.move.get))
  rw [gradient_sq_eq hstep, denominator_eq_of_identity hstep]
  linarith

end Step

/-- An attempt with a negligible denominator was made from a point with a small gradient. -/
theorem Attempt.Made.gradient_sq_lt {c : Setting α n} {i : Nat} {s : State α m n} {step : Step α n}
    {e : Evaluation α} {a : Attempt α m n} {jacobian : Mat α m n} (ha : a.Made c i s step e)
    (hstyle : c.style = .identity) (hs : s.Regular jacobian)
    (hsmall : a.denominator < Scalar.epsilon) :
    dot s.current.gradient s.current.gradient <
      Scalar.epsilon * (s.current.gram.toMatrix.trace + s.damping.mu) := by
  have hstep := ha.step_eq
  rw [hstyle, hs.step?_eq] at hstep
  have hfactor : 0 < s.current.gram.toMatrix.trace + s.damping.mu := by
    rw [hs.gram_eq, jacobian.toMatrix_gram]
    exact add_pos_of_nonneg_of_pos (trace_gram_nonneg _) hs.positive.mu_pos
  calc
    dot s.current.gradient s.current.gradient
      ≤ (s.current.gram.toMatrix.trace + s.damping.mu) * step.denominator := by
      rw [hs.gradient_eq, hs.gram_eq]
      exact Step.gradient_sq_le hs.positive.mu_pos.le hstep
    _ < (s.current.gram.toMatrix.trace + s.damping.mu) * Scalar.epsilon := by
      rw [← ha.denominator_eq]
      exact mul_lt_mul_of_pos_left hsmall hfactor
    _ = Scalar.epsilon * (s.current.gram.toMatrix.trace + s.damping.mu) := mul_comm _ _

/-- Under identity damping there is always a step, and its denominator and the squared length of the
gradient bound each other. So a solve that comes to a local minimum by an attempt made the last one
from a point with a gradient that is small in terms of the trace of the Gauss-Newton matrix there
and of the damping factor of that attempt. -/
theorem negligible_denominator_certifies :
    (∀ {m n : Nat} (a : Mat α m n) (f : Vector α m) (mu : α), 0 < mu →
      ∃ step, Step.damped? a.gram (a.transposeMulVec f)
          (DampingStyle.identity.vector mu a.gram) = some step ∧
        dot (a.transposeMulVec f) (a.transposeMulVec f) ≤
          (a.gram.toMatrix.trace + mu) * step.denominator ∧
        mu * step.denominator ≤ 2 * dot (a.transposeMulVec f) (a.transposeMulVec f)) ∧
    ∀ {n : Nat} (config : Config α) (problem : Problem α n) (x : Vector α n) (recordTrace : Bool)
      (solution : Solution α n), config.damping = .identity →
      (minimize config problem x).outcome recordTrace = .ok solution →
      solution.reason = .localMinimum → 1 ≤ solution.iterations →
      ∃ (m : Nat) (start : State α m n) (trail : Trail α m n) (k j : Nat) (s : State α m n)
        (e : Evaluation α) (jacobian : Mat α m n),
        minimize config problem x = .iterated m start trail ∧ k + 1 = solution.iterations ∧
        (trail.states start)[k]? = some s ∧
        LastAccepted (minimize config problem x).decisions k j ∧
        s.current.Answers problem j e jacobian ∧
        dot s.current.gradient s.current.gradient <
          Scalar.epsilon * (s.current.gram.toMatrix.trace + s.damping.mu) := by
  constructor
  · intro m n a f mu hmu
    obtain ⟨step, hstep⟩ := Step.exists_damped? a f .identity hmu nofun
    exact ⟨step, hstep, Step.gradient_sq_le hmu.le hstep, Step.mul_denominator_le hmu.le hstep⟩
  · intro n config problem x recordTrace solution hidentity houtcome hreason hiterations
    rcases Course.solution_cases houtcome with
      ⟨m, it, _, rfl⟩ | ⟨m, start, trail, reason, hcourse, hending, rfl⟩
    · exact absurd hiterations (Nat.not_succ_le_zero 0)
    · obtain rfl : reason = .localMinimum := hreason
      obtain ⟨box, _, _, hlaunch, hrun⟩ := exists_launch hcourse
      have hn : n ≠ 0 := ((config.validate_eq_ok_iff n box).mp hlaunch.validate_eq).1
      obtain ⟨k, s, t, hk, hs, ht, hsettles, _⟩ :=
        (hrun.stopsFor hn hending).last_settles (by decide)
      obtain ⟨step, _, hmade⟩ := Setting.made_of_attempt (hrun.attempt_eq hs ht)
      obtain ⟨j, e, jacobian, hlast, hanswers, hregular⟩ := exists_regular hcourse hs
      refine ⟨m, start, trail, k, j, s, e, jacobian, hcourse, hk, hs, hlast, hanswers, ?_⟩
      cases hsettles with
      | localMinimum hsmall => exact hmade.gradient_sq_lt hidentity hregular hsmall

/-- A start that is close to the minimum, but not at it, is where such a solve ends. -/
theorem negligible_denominator_certifies_near_minimum :
    let a : Mat ℝ 1 1 := .ofFn ![![1]]
    let course := minimize .standard (.linear a #v[0]) #v[1 / 2 ^ 40]
    ∃ (solution : Solution ℝ 1) (m : Nat) (start : State ℝ m 1) (trail : Trail ℝ m 1) (k : Nat)
      (s : State ℝ m 1),
      course.outcome false = .ok solution ∧ solution.reason = .localMinimum ∧
      solution.iterations = 1 ∧ course = .iterated m start trail ∧
      (trail.states start)[k]? = some s ∧
      dot s.current.gradient s.current.gradient <
        Scalar.epsilon * (s.current.gram.toMatrix.trace + s.damping.mu) := by
  intro a course
  obtain ⟨hbounds, hsolves⟩ := negligible_denominator_certifies (α := ℝ)
  have hmu : Damping.initialMu Config.standard.tau a.gram.diagonal.toList = 1 / 1000 := by
    have hdiagonal : a.gram.diagonal.toList = [1] := by
      simp [Mat.diagonal, Vector.toList_ofFn, Mat.entry_gram_self, a]
    rw [hdiagonal, Damping.initialMu_cons]
    norm_num [Config.standard]
  have hlarge : Scalar.epsilon ≤ (1 / 1000 : ℝ) := by
    rw [Scalar.epsilon_eq]
    norm_num
  have hcourse := minimize_linear_eq_iterated a #v[0] #v[1 / 2 ^ 40]
    (Config.validate_standard .identity one_ne_zero) (Damping.start?_eq_some hmu hlarge)
  obtain ⟨t, ht⟩ := exists_attempt_of_goesOn (fun hdiagonal => by cases hdiagonal) hcourse
    (Trail.states_zero _ _) (Trail.goesOn_zero _ (by decide) _)
  obtain ⟨box, _, _, _, hrun⟩ := exists_launch hcourse
  obtain ⟨step, _, hmade⟩ := Setting.made_of_attempt (hrun.attempt_eq (Trail.states_zero _ _) ht)
  have hlinear := linear_of_states hcourse (Trail.states_zero _ _)
  -- The gradient at the start is `2⁻⁴⁰`, so the denominator is of the order of its square.
  have hsmall : t.denominator < Scalar.epsilon := by
    obtain ⟨step', hstep', _, hupper⟩ :=
      hbounds a (minus (a.mulVec #v[1 / 2 ^ 40]) #v[0]) (1 / 1000) (by norm_num)
    have hgradient (p : ℝ) : dot (a.transposeMulVec (minus (a.mulVec #v[p]) #v[0]))
        (a.transposeMulVec (minus (a.mulVec #v[p]) #v[0])) = p * p := by
      rw [dot_eq_dotProduct, Mat.get_transposeMulVec, get_minus_eq_sub, Mat.get_mulVec]
      simp [a, Matrix.mulVec, dotProduct, Vector.get]
    have hstep := hlinear.damped?_eq hmade.step_eq
    obtain rfl : step = step' := Option.some.inj (hstep.symm.trans hstep')
    rw [hgradient] at hupper
    rw [hmade.denominator_eq, Scalar.epsilon_eq]
    linarith
  have hverdict : t.verdict (Config.standard.setting (.linear a #v[0]) box).tolerances =
      .stopped .localMinimum := by
    rw [Attempt.verdict, Tolerances.verdict, if_pos hsmall]
  obtain ⟨hlength, hending⟩ := hrun.ending_of_verdict ht hverdict
  have houtcome := (congrArg (Course.outcome false) hcourse).trans
    (Course.outcome_of_stopped hending false)
  obtain ⟨m, start, trail, k, _, s, _, _, hcourse', _, hs, _, _, hlt⟩ :=
    hsolves .standard _ _ false _ rfl houtcome rfl hlength.le
  exact ⟨_, m, start, trail, k, s, houtcome, rfl, hlength.symm, hcourse', hs, hlt⟩

end LeastSquares
