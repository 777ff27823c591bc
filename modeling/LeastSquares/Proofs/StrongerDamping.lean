import Mathlib
import LeastSquares.Proofs.DampingRange
import LeastSquares.Proofs.Regularity
import LeastSquares.Proofs.StepOptimality

/-! # Stronger damping

In exact arithmetic a greater damping factor makes the step shorter, measured by what the factor
multiplies, and its predicted decrease smaller. Both steps are the minimum of their own damped cost,
and comparing each with the other one gives both. A rejection keeps the equations and raises the
factor, so along rejections in a row the steps shrink.
-/

namespace LeastSquares

open Matrix

variable {α : Type} [ExactScalar α] {m n : Nat}

namespace DampingStyle

/-- The diagonal that the damping factor multiplies. -/
def weights (style : DampingStyle) (gram : Mat α n n) : Vector α n :=
  match style with
  | .identity => .ofFn fun _ => 1
  | .diagonal => gram.diagonal

theorem get_vector (style : DampingStyle) (mu : α) (gram : Mat α n n) (i : Fin n) :
    (style.vector mu gram).get i = mu * (style.weights gram).get i := by
  cases style with
  | identity => simp [weights]
  | diagonal => simp [weights]

theorem weights_pos {style : DampingStyle} {a : Mat α m n}
    (hcolumns : style = .diagonal → ¬a.HasZeroColumn) (i : Fin n) :
    0 < (style.weights a.gram).get i := by
  have hpos := vector_pos one_pos hcolumns i
  rwa [get_vector, one_mul] at hpos

theorem dampingForm_vector (style : DampingStyle) (mu : α) (gram : Mat α n n)
    (move : Vector α n) :
    dampingForm (style.vector mu gram) move = mu * dampingForm (style.weights gram) move := by
  simp only [dampingForm, get_vector, Finset.mul_sum, mul_assoc]

end DampingStyle

/-- The second step is shorter, in the lengths that the weights give, unless the first one is zero
already, and it predicts no more. -/
structure Step.Shrinks (weights : Vector α n) (step step' : Step α n) : Prop where
  shorter : step.move.get ≠ 0 → dampingForm weights step'.move < dampingForm weights step.move
  denominator_le : step'.denominator ≤ step.denominator

namespace Step

variable {a : Mat α m n} {f : Vector α m} {style : DampingStyle} {mu mu' : α}
  {step step' : Step α n}

/-- Different factors leave no move in common, except for that of a point without a gradient. -/
theorem move_ne_of_lt (hcolumns : style = .diagonal → ¬a.HasZeroColumn) (hlt : mu < mu')
    (hstep : damped? a.gram (a.transposeMulVec f) (style.vector mu a.gram) = some step)
    (hstep' : damped? a.gram (a.transposeMulVec f) (style.vector mu' a.gram) = some step')
    (hmove : step.move.get ≠ 0) : step'.move ≠ step.move := by
  intro hsame
  have hequations' := gram_equations hstep'
  rw [hsame, ← gram_equations hstep, add_mulVec, add_mulVec, add_right_inj] at hequations'
  apply hmove
  funext i
  have hentry := congrFun hequations' i
  rw [mulVec_diagonal, mulVec_diagonal, style.get_vector, style.get_vector] at hentry
  have hweight := (mul_pos (sub_pos.mpr hlt) (DampingStyle.weights_pos hcolumns i)).ne'
  apply (mul_eq_zero_iff_left hweight).mp
  linear_combination hentry

theorem dampedCost_vector (move : Vector α n) :
    dampedCost a f (style.vector mu a.gram) move =
      dot (a.predicted f move) (a.predicted f move) +
        mu * dampingForm (style.weights a.gram) move := by
  rw [dampedCost, style.dampingForm_vector]

/-- Each step minimizes its own damped cost, so the one with more damping is shorter, and the one
with less predicts shorter residuals. -/
theorem shrinks_of_lt (hcolumns : style = .diagonal → ¬a.HasZeroColumn) (hmu : 0 < mu)
    (hlt : mu < mu')
    (hstep : damped? a.gram (a.transposeMulVec f) (style.vector mu a.gram) = some step)
    (hstep' : damped? a.gram (a.transposeMulVec f) (style.vector mu' a.gram) = some step') :
    step.Shrinks (style.weights a.gram) step' := by
  by_cases hmove : step.move.get = 0
  · have hzero : step'.denominator = 0 := by
      rw [denominator_eq_zero_iff (style.vector_nonneg (hmu.trans hlt).le a) hstep',
        ← move_eq_zero_iff hstep]
      exact hmove
    refine ⟨fun hne => absurd hmove hne, ?_⟩
    rw [hzero]
    exact denominator_nonneg (style.vector_nonneg hmu.le a) hstep
  · have hne := move_ne_of_lt hcolumns hlt hstep hstep' hmove
    have hless := dampedCost_lt hstep hne
    have hmore := dampedCost_lt hstep' hne.symm
    rw [dampedCost_vector, dampedCost_vector] at hless hmore
    have hform : dampingForm (style.weights a.gram) step'.move <
        dampingForm (style.weights a.gram) step.move := by
      apply lt_of_mul_lt_mul_left _ (sub_pos.mpr hlt).le
      linarith
    refine ⟨fun _ => hform, ?_⟩
    have hcharge := mul_lt_mul_of_pos_left hform hmu
    rw [denominator_eq_sub_predicted hstep, denominator_eq_sub_predicted hstep']
    linarith

end Step

section Solve

variable {config : Config α} {problem : Problem α n} {x : Vector α n} {start s s' : State α m n}
  {trail : Trail α m n} {k l : Nat}

/-- Every rejection of a solve at least doubles the damping factor. -/
theorem two_le_nu_of_states (hcourse : minimize config problem x = .iterated m start trail)
    (hs : (trail.states start)[k]? = some s) : 2 ≤ s.damping.nu := by
  obtain ⟨_, _, _, _, hrun⟩ := exists_launch hcourse
  obtain ⟨_, hnu⟩ := startsAt_of_iterated hcourse
  have hk : k ≤ trail.records.length := by
    have hlength := (List.getElem?_eq_some_iff.mp hs).1
    rw [Trail.length_states] at hlength
    rw [Trail.length_records]
    omega
  obtain ⟨j, _, hgrowth⟩ := Damping.exists_growth hnu trail.records hk
  rw [hrun.damping_eq_replay hs, hgrowth, Damping.growth_eq_pow, pow_add, pow_one]
  exact le_mul_of_one_le_right zero_le_two (one_le_pow₀ one_le_two)

/-- A rejection keeps the current point and raises the damping factor. -/
theorem raised_of_rejected (hcourse : minimize config problem x = .iterated m start trail)
    (hs : (trail.states start)[k]? = some s) {a : Attempt α m n}
    (ha : trail.attempts[k]? = some a) (hrejected : a.accepted = false) :
    a.next.current = s.current ∧ s.damping.mu < a.next.damping.mu := by
  obtain ⟨_, _, _, _, hrun⟩ := exists_launch hcourse
  obtain ⟨step, e, hmade⟩ := Setting.made_of_attempt (hrun.attempt_eq hs ha)
  have hmu := (positive_of_states hcourse hs).mu_pos
  have hnu := two_le_nu_of_states hcourse hs
  rw [hmade.next_of_rejected hrejected]
  refine ⟨rfl, ?_⟩
  exact lt_mul_of_one_lt_right hmu (one_lt_two.trans_le hnu)

/-- Rejections in a row keep the current point and raise the damping factor. -/
theorem raised_of_all_rejected (hcourse : minimize config problem x = .iterated m start trail)
    (hs : (trail.states start)[k]? = some s) (hkl : k < l)
    (hs' : (trail.states start)[l]? = some s')
    (hrejected : ∀ i a, k ≤ i → i < l → trail.attempts[i]? = some a → a.accepted = false) :
    s'.current = s.current ∧ s.damping.mu < s'.damping.mu := by
  induction l, hkl using Nat.le_induction generalizing s' with
  | base =>
      obtain ⟨a, ha, rfl⟩ := Trail.exists_attempt_of_states_succ hs'
      exact raised_of_rejected hcourse hs ha (hrejected k a le_rfl (Nat.lt_succ_self k) ha)
  | succ l hkl ih =>
      obtain ⟨a, ha, rfl⟩ := Trail.exists_attempt_of_states_succ hs'
      obtain ⟨t, ht⟩ := trail.exists_state start ha
      obtain ⟨hcurrent, hraised⟩ :=
        ih ht fun i b hki hil => hrejected i b hki (Nat.lt_succ_of_lt hil)
      obtain ⟨hkept, hmore⟩ := raised_of_rejected hcourse ht ha
        (hrejected l a (Nat.le_of_succ_le hkl) (Nat.lt_succ_self l) ha)
      exact ⟨hkept.trans hcurrent, hraised.trans hmore⟩

/-- Where a step was taken with damping by the diagonal, no column was zero. -/
theorem State.Regular.not_hasZeroColumn {jacobian : Mat α m n} (hs : s.Regular jacobian)
    {style : DampingStyle} {step : Step α n} (hstep : s.step? style = some step) :
    style = .diagonal → ¬jacobian.HasZeroColumn := by
  rintro rfl hcolumn
  rw [hs.step?_diagonal_eq_none_iff.mpr hcolumn] at hstep
  cases hstep

/-- The same equations under a greater factor. -/
theorem State.Regular.exists_shrunk {jacobian : Mat α m n} (hs : s.Regular jacobian)
    {style : DampingStyle} {step : Step α n} (hstep : s.step? style = some step)
    (hcurrent : s'.current = s.current) (hraised : s.damping.mu < s'.damping.mu) :
    ∃ step', s'.step? style = some step' ∧
      step.Shrinks (style.weights s.current.gram) step' := by
  have hcolumns := hs.not_hasZeroColumn hstep
  have hstep₀ := hstep
  rw [hs.step?_eq] at hstep₀
  obtain ⟨step', hstep'⟩ := Step.exists_damped? jacobian s.current.residuals style
    (hs.positive.mu_pos.trans hraised) hcolumns
  refine ⟨step', ?_, ?_⟩
  · rw [State.step?, hcurrent, hs.gram_eq, hs.gradient_eq]
    exact hstep'
  · rw [hs.gram_eq]
    exact Step.shrinks_of_lt hcolumns hs.positive.mu_pos hraised hstep₀ hstep'

/-- The denominator of an attempt is that of the step from the state before it. -/
theorem denominator_eq_of_states (hcourse : minimize config problem x = .iterated m start trail)
    (hs : (trail.states start)[k]? = some s) {step : Step α n}
    (hstep : s.step? config.damping = some step) {a : Attempt α m n}
    (ha : trail.attempts[k]? = some a) : a.denominator = step.denominator := by
  obtain ⟨_, _, _, _, hrun⟩ := exists_launch hcourse
  obtain ⟨step', _, hmade⟩ := Setting.made_of_attempt (hrun.attempt_eq hs ha)
  rw [hmade.denominator_eq, Option.some.inj (hmade.step_eq.symm.trans hstep)]

end Solve

/-- Under a greater damping factor there is a step as well, and it is shorter than the other one, in
the lengths given by what the factor multiplies, unless that one is zero; its predicted decrease is
not greater. In a solve the factor rises with each rejection while the point stays, so after any
number of rejections in a row the step from the point has shrunk. -/
theorem stronger_damping_shortens :
    (∀ {m n : Nat} (a : Mat α m n) (f : Vector α m) (style : DampingStyle) (mu mu' : α),
      0 < mu → mu < mu' → (style = .diagonal → ∀ j, 0 < a.gram.entry j j) →
      ∃ step step',
        Step.damped? a.gram (a.transposeMulVec f) (style.vector mu a.gram) = some step ∧
        Step.damped? a.gram (a.transposeMulVec f) (style.vector mu' a.gram) = some step' ∧
        step.Shrinks (style.weights a.gram) step') ∧
    ∀ {n : Nat} (config : Config α) (problem : Problem α n) (x : Vector α n) (m : Nat)
      (start : State α m n) (trail : Trail α m n) (k l : Nat) (s s' : State α m n),
      minimize config problem x = .iterated m start trail → k < l →
      (trail.states start)[k]? = some s → (trail.states start)[l]? = some s' →
      (∀ i a, k ≤ i → i < l → trail.attempts[i]? = some a → a.accepted = false) →
      s'.current = s.current ∧ s.damping.mu < s'.damping.mu ∧
      ∃ step step', s.step? config.damping = some step ∧ s'.step? config.damping = some step' ∧
        step.Shrinks (config.damping.weights s.current.gram) step' ∧
        (∀ a, trail.attempts[k]? = some a → a.denominator = step.denominator) ∧
        ∀ a, trail.attempts[l]? = some a → a.denominator = step'.denominator := by
  constructor
  · intro m n a f style mu mu' hmu hlt hentries
    have hcolumns : style = .diagonal → ¬a.HasZeroColumn := by
      rintro hstyle ⟨j, hcolumn⟩
      exact (hentries hstyle j).ne' ((a.entry_gram_self_eq_zero_iff j).mpr hcolumn)
    obtain ⟨step, hstep⟩ := Step.exists_damped? a f style hmu hcolumns
    obtain ⟨step', hstep'⟩ := Step.exists_damped? a f style (hmu.trans hlt) hcolumns
    exact ⟨step, step', hstep, hstep', Step.shrinks_of_lt hcolumns hmu hlt hstep hstep'⟩
  · intro n config problem x m start trail k l s s' hcourse hkl hs hs' hrejected
    obtain ⟨hcurrent, hraised⟩ := raised_of_all_rejected hcourse hs hkl hs' hrejected
    obtain ⟨_, _, jacobian, _, _, hregular⟩ := exists_regular hcourse hs
    obtain ⟨box, _, _, _, hrun⟩ := exists_launch hcourse
    -- There was an attempt from the earlier state, so there is a step from it.
    have hk : k < trail.attempts.length := by
      have hlength := (List.getElem?_eq_some_iff.mp hs').1
      rw [Trail.length_states] at hlength
      omega
    obtain ⟨step, _, hmade⟩ :=
      Setting.made_of_attempt (hrun.attempt_eq hs (List.getElem?_eq_getElem hk))
    obtain ⟨step', hstep', hshrinks⟩ := hregular.exists_shrunk hmade.step_eq hcurrent hraised
    exact ⟨hcurrent, hraised, step, step', hmade.step_eq, hstep', hshrinks,
      fun _ => denominator_eq_of_states hcourse hs hmade.step_eq,
      fun _ => denominator_eq_of_states hcourse hs' hstep'⟩

/-- An attempt that leaves the cost as it is gains nothing. -/
theorem Attempt.Made.accepted_eq_false_of_cost {c : Setting α n} {i : Nat} {s : State α m n}
    {step : Step α n} {e : Evaluation α} {a : Attempt α m n} (ha : a.Made c i s step e)
    (hcost : e.cost = s.current.cost) : a.accepted = false := by
  rw [accepted, ha.ratio_eq, Damping.gainRatio, hcost, sub_self, zero_div, Scalar.zero_eq]
  exact decide_eq_false (lt_irrefl 0)

/-- Residuals that are the same everywhere lead to a rejection and then to a shorter step. -/
theorem stronger_damping_shortens_after_rejection :
    let a : Mat ℝ 1 1 := .ofFn ![![1]]
    let problem : Problem ℝ 1 := fun _ _ _ => .ok ⟨#[1], some (.ofMat a)⟩
    (∃ step step',
      Step.damped? a.gram (a.transposeMulVec #v[1]) (DampingStyle.diagonal.vector 1 a.gram) =
        some step ∧
      Step.damped? a.gram (a.transposeMulVec #v[1]) (DampingStyle.diagonal.vector 2 a.gram) =
        some step' ∧
      step.Shrinks (DampingStyle.diagonal.weights a.gram) step') ∧
    ∃ (start : State ℝ 1 1) (trail : Trail ℝ 1 1) (s : State ℝ 1 1) (step step' : Step ℝ 1),
      minimize .standard problem #v[0] = .iterated 1 start trail ∧
      (trail.states start)[1]? = some s ∧ start.step? .identity = some step ∧
      s.step? .identity = some step' ∧
      dampingForm (DampingStyle.identity.weights a.gram) step'.move <
        dampingForm (DampingStyle.identity.weights a.gram) step.move := by
  intro a problem
  obtain ⟨hsteps, hsolves⟩ := stronger_damping_shortens (α := ℝ)
  have hentry : ∀ j, a.gram.entry j j = 1 := by
    intro j
    fin_cases j
    simp [a, Mat.entry_gram_self]
  refine ⟨hsteps a #v[1] .diagonal 1 2 one_pos one_lt_two fun _ j => ?_, ?_⟩
  · rw [hentry]
    exact one_pos
  have hlarge : Scalar.epsilon ≤ (Config.standard : Config ℝ).tau * a.gram.diagonal.get 0 := by
    rw [Mat.get_diagonal, hentry]
    norm_num [Config.standard, Scalar.epsilon]
  obtain ⟨d, hd⟩ := Damping.exists_start? (by norm_num [Config.standard]) 0 hlarge
  let config : Config ℝ := .standard
  let c : Setting ℝ 1 := config.setting problem ⟨none, none⟩
  let start : State ℝ 1 1 := .begin (.of #v[0] #v[1] a) d
  let trail : Trail ℝ 1 1 := c.iterate config.maxIterations 1 start
  have hcourse : minimize .standard problem #v[0] = .iterated 1 start trail :=
    minimize_eq_iterated (Config.validate_standard .identity one_ne_zero) rfl rfl
      (Evaluation.jacobianOf_ofMat #[1] a) hd
  have hstart := trail.states_zero start
  have hrun : c.Runs config.maxIterations 1 start trail := c.runs_iterate _ 1 start
  obtain ⟨first, hfirst⟩ := Step.exists_damped? a #v[1] .identity
    (positive_of_states hcourse hstart).mu_pos (fun hdiagonal => by cases hdiagonal)
  obtain ⟨t, ht, hattempt⟩ := hrun.exists_attempt_of_goesOn hstart
    (trail.goesOn_zero (by decide) _) hfirst rfl rfl (Evaluation.jacobianOf_ofMat #[1] a)
  obtain ⟨_, e, hmade⟩ := Setting.made_of_attempt hattempt
  have hrejected : t.accepted = false := by
    obtain rfl : ⟨#[1], some (.ofMat a)⟩ = e := Except.ok.inj hmade.answer_eq
    exact hmade.accepted_eq_false_of_cost rfl
  obtain ⟨_, _, step, step', hstep, hstep', hshrinks, _⟩ :=
    hsolves .standard problem #v[0] 1 start trail 0 1 start t.next hcourse one_pos hstart
      (Trail.states_succ ht) (by
        intro i b _ hi hb
        obtain rfl : i = 0 := by omega
        rw [← Option.some.inj (ht.symm.trans hb)]
        exact hrejected)
  refine ⟨start, trail, t.next, step, step', hcourse, Trail.states_succ ht, hstep, hstep',
    hshrinks.shorter ?_⟩
  intro hzero
  have hgradient := (Step.move_eq_zero_iff (a := a) (f := #v[1]) hstep).mp hzero
  rw [Mat.get_transposeMulVec] at hgradient
  simpa [a, mulVec, dotProduct, Vector.get] using congrFun hgradient 0

end LeastSquares
