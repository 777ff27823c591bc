import Mathlib
import LeastSquares.Proofs.LinearProblem

/-! # Solves of linear problems

In exact arithmetic and without bounds, every step of a linear problem does exactly what was
predicted: its gain ratio is one, until a point is reached where the cost has no slope. The one
attempt made from there is rejected and ends the solve. No iteration fails, unless the damping
follows the diagonal and a column is zero.
-/

namespace LeastSquares

open Matrix

variable {α : Type} [ExactScalar α] {m n : Nat}

/-- The attempt `t` from `s` was worth exactly what was predicted, and the damping shrank by as much
as one step can shrink it. -/
structure Attempt.Exact (s : State α m n) (t : Attempt α m n) : Prop where
  ratio_eq : t.ratio = 1
  accepted : t.accepted = true
  nu_eq : t.next.damping.nu = 2
  mu_eq : t.next.damping.mu = max s.damping.floor (s.damping.mu / 3)

/-- A regular state whose residuals are those of `a x - b` at the current point. -/
structure State.Linear (a : Mat α m n) (b : Vector α m) (s : State α m n) : Prop where
  regular : s.Regular a
  residuals_eq : s.current.residuals = minus (a.mulVec s.current.point) b

variable {a : Mat α m n} {b : Vector α m}

namespace State.Linear

variable {s : State α m n} {style : DampingStyle} {step : Step α n}

theorem damped?_eq (hs : s.Linear a b) (hstep : s.step? style = some step) :
    Step.damped? a.gram (a.transposeMulVec (minus (a.mulVec s.current.point) b))
      (style.vector s.damping.mu a.gram) = some step := by
  rw [← hs.residuals_eq, ← hs.regular.step?_eq, hstep]

theorem denominator_eq_zero_iff (hs : s.Linear a b) (hstep : s.step? style = some step) :
    step.denominator = 0 ↔ a.Stationary b s.current.point := by
  have hdamping := style.vector_nonneg hs.regular.positive.mu_pos.le a
  rw [a.stationary_iff, Step.denominator_eq_zero_iff hdamping (hs.damped?_eq hstep)]

end State.Linear

namespace Attempt.Made

variable {config : Config α} {box : Box α n} {i : Nat} {s : State α m n} {step : Step α n}
  {e : Evaluation α} {t : Attempt α m n}

theorem trial_eq_of_free {c : Setting α n} (ht : t.Made c i s step e) (hbox : c.box.Free) :
    t.trial = plus s.current.point step.move :=
  ht.trial_eq.trans (hbox.clip_eq _)

/-- Where no bound clips the step, the predicted decrease is the one that happens. -/
theorem denominator_eq_of_linear
    (ht : t.Made (config.setting (.linear a b) box) i s step e) (hs : s.Linear a b)
    (htrial : t.trial = plus s.current.point step.move) :
    step.denominator = s.current.cost - e.cost := by
  have hvector : (⟨e.residuals, ht.size_eq⟩ : Vector α m) = minus (a.mulVec t.trial) b := by
    apply Vector.toArray_inj.mp
    exact congrArg Evaluation.residuals (Except.ok.inj ht.answer_eq).symm
  rw [Step.denominator_eq_cost_sub_cost (hs.damped?_eq ht.step_eq), e.cost_eq_dot ht.size_eq,
    hvector, htrial, hs.regular.cost_eq, hs.residuals_eq]

theorem ratio_eq_of_linear
    (ht : t.Made (config.setting (.linear a b) box) i s step e) (hs : s.Linear a b)
    (htrial : t.trial = plus s.current.point step.move) :
    t.ratio = step.denominator / step.denominator := by
  rw [ht.ratio_eq, Damping.gainRatio, ← ht.denominator_eq_of_linear hs htrial]

theorem exact_of_linear
    (ht : t.Made (config.setting (.linear a b) box) i s step e) (hs : s.Linear a b)
    (htrial : t.trial = plus s.current.point step.move)
    (hslope : ¬a.Stationary b s.current.point) : t.Exact s := by
  have hratio : t.ratio = 1 := by
    rw [ht.ratio_eq_of_linear hs htrial]
    exact div_self (mt (hs.denominator_eq_zero_iff ht.step_eq).mp hslope)
  have haccepted : t.accepted = true := by
    rw [accepted, hratio, Scalar.zero_eq]
    exact decide_eq_true zero_lt_one
  obtain ⟨_, _, hnext⟩ := ht.next_of_accepted haccepted
  refine ⟨hratio, haccepted, ?_, ?_⟩
  · rw [hnext]
    exact Damping.nu_accept s.damping t.ratio
  · rw [hnext, hratio]
    exact Damping.mu_accept_one s.damping

/-- Where nothing was predicted, nothing is gained. -/
theorem accepted_eq_false_of_denominator {c : Setting α n} (ht : t.Made c i s step e)
    (hdenominator : step.denominator = 0) : t.accepted = false := by
  rw [accepted, ht.ratio_eq, Damping.gainRatio, hdenominator, div_zero, Scalar.zero_eq]
  exact decide_eq_false (lt_irrefl 0)

/-- From a stationary point nothing is predicted. -/
theorem accepted_eq_false_of_stationary
    (ht : t.Made (config.setting (.linear a b) box) i s step e) (hs : s.Linear a b)
    (hstationary : a.Stationary b s.current.point) : t.accepted = false :=
  ht.accepted_eq_false_of_denominator ((hs.denominator_eq_zero_iff ht.step_eq).mpr hstationary)

theorem verdict_of_stationary
    (ht : t.Made (config.setting (.linear a b) box) i s step e) (hs : s.Linear a b)
    (hstationary : a.Stationary b s.current.point) :
    t.verdict (config.setting (.linear a b) box).tolerances = .stopped .localMinimum := by
  have hdenominator := (hs.denominator_eq_zero_iff ht.step_eq).mpr hstationary
  rw [verdict, Tolerances.verdict, ht.denominator_eq, hdenominator, if_pos Scalar.epsilon_pos]

end Attempt.Made

section Solve

variable {config : Config α} {x : Vector α n} {start s : State α m n} {trail : Trail α m n}
  {k : Nat}

theorem linear_of_states (hcourse : minimize config (.linear a b) x = .iterated m start trail)
    (hs : (trail.states start)[k]? = some s) : s.Linear a b := by
  obtain ⟨_, _, jacobian, _, hanswers, hregular⟩ := exists_regular hcourse hs
  obtain rfl := hanswers.jacobian_eq_of_linear
  exact ⟨hregular, hanswers.residuals_eq_of_linear⟩

/-- Without bounds, a solve runs in a box that limits nothing. -/
theorem exists_free_box (hbounds : config.bounds.Free) {problem : Problem α n}
    (hcourse : minimize config problem x = .iterated m start trail) :
    ∃ box, Box.Free box ∧
      (config.setting problem box).Runs config.maxIterations 1 start trail := by
  obtain ⟨box, _, _, hlaunch, hrun⟩ := exists_launch hcourse
  have hbox := ((config.validate_eq_ok_iff n box).mp hlaunch.validate_eq).2.2.2.2
  exact ⟨box, hbounds.box hbox, hrun⟩

/-- Every iteration that is begun is carried through. -/
theorem exists_attempt_of_goesOn (hcolumns : config.damping = .diagonal → ¬a.HasZeroColumn)
    (hcourse : minimize config (.linear a b) x = .iterated m start trail)
    (hs : (trail.states start)[k]? = some s)
    (hon : trail.GoesOn config.maxIterations
      (.share config.parameterTolerance config.objectiveTolerance n) k) :
    ∃ t, trail.attempts[k]? = some t := by
  obtain ⟨box, _, _, _, hrun⟩ := exists_launch hcourse
  obtain ⟨step, hstep⟩ := Option.isSome_iff_exists.mp
    ((linear_of_states hcourse hs).regular.isSome_step? hcolumns)
  obtain ⟨t, ht, _⟩ := hrun.exists_attempt_of_goesOn hs hon hstep rfl (Vector.size_toArray _)
    (Evaluation.jacobianOf_ofMat _ a)
  exact ⟨t, ht⟩

/-- A solve that starts where the cost has no slope stops after one attempt. -/
theorem ending_of_stationary_start (hcap : 0 < config.maxIterations)
    (hcolumns : config.damping = .diagonal → ¬a.HasZeroColumn)
    (hcourse : minimize config (.linear a b) x = .iterated m start trail)
    (hstationary : a.Stationary b x) :
    trail.attempts.length = 1 ∧ trail.ending = .stopped .localMinimum := by
  obtain ⟨box, _, _, hlaunch, hrun⟩ := exists_launch hcourse
  obtain ⟨t, ht⟩ := exists_attempt_of_goesOn hcolumns hcourse (trail.states_zero start)
    (trail.goesOn_zero hcap _)
  obtain ⟨step, e, hmade⟩ :=
    Setting.made_of_attempt (hrun.attempt_eq (trail.states_zero start) ht)
  rw [← hlaunch.point_eq] at hstationary
  have hlinear := linear_of_states hcourse (trail.states_zero start)
  obtain ⟨hlength, hending⟩ :=
    hrun.ending_of_verdict ht (hmade.verdict_of_stationary hlinear hstationary)
  exact ⟨hlength.symm, hending⟩

/-- No solve of a linear problem ends in a fault. -/
theorem exists_ending_eq_stopped (hcolumns : config.damping = .diagonal → ¬a.HasZeroColumn)
    (hcourse : minimize config (.linear a b) x = .iterated m start trail) :
    ∃ reason, trail.ending = .stopped reason := by
  obtain ⟨_, _, _, _, hrun⟩ := exists_launch hcourse
  by_contra hending
  have hon := hrun.goesOn_of_not_stopped fun reason hstopped => hending ⟨reason, hstopped⟩
  obtain ⟨t, ht⟩ := exists_attempt_of_goesOn hcolumns hcourse (trail.last_eq start) hon
  rw [List.getElem?_eq_none (Nat.le_refl _)] at ht
  cases ht

/-- A solve of a single iteration, from where the cost has a slope, ends where its step leads if no
bound is in the way. -/
theorem exists_solution_of_one_iteration {box : Box α n} {d : Damping α} {move : Vector α n}
    {gradient : Fin n → α} (hvalid : config.validate n = .ok box) (hcap : config.maxIterations = 1)
    (hcolumns : config.damping = .diagonal → ¬a.HasZeroColumn)
    (hdamping : Damping.start? config.tau a.gram.diagonal.toList = some d)
    (hgradient : (a.transposeMulVec (minus (a.mulVec x) b)).get = gradient)
    (hslope : gradient ≠ 0)
    (hmove : (a.gram.toMatrix + diagonal (config.damping.vector d.mu a.gram).get) *ᵥ move.get =
      -gradient)
    (hinside : box.clip (plus x move) = plus x move) :
    ∃ solution, (minimize config (.linear a b) x).outcome false = .ok solution ∧
      solution.iterations = 1 ∧ solution.point = plus x move ∧
      solution.residuals = (minus (a.mulVec (plus x move)) b).toList := by
  rw [← hgradient] at hslope hmove
  obtain ⟨start, trail, hcourse, rfl, rfl⟩ : ∃ start trail,
      minimize config (.linear a b) x = .iterated m start trail ∧ start.current.point = x ∧
        start.damping = d :=
    ⟨_, _, minimize_linear_eq_iterated a b x hvalid hdamping, rfl, rfl⟩
  obtain ⟨box', _, _, hlaunch, hrun⟩ := exists_launch hcourse
  obtain rfl : box = box' := Except.ok.inj (hvalid.symm.trans hlaunch.validate_eq)
  obtain ⟨t, ht⟩ := exists_attempt_of_goesOn hcolumns hcourse (trail.states_zero start)
    (trail.goesOn_zero (by omega) _)
  obtain ⟨step, e, hmade⟩ :=
    Setting.made_of_attempt (hrun.attempt_eq (trail.states_zero start) ht)
  have hlinear := linear_of_states hcourse (trail.states_zero start)
  have hstep : step.move = move :=
    ext_get (congrFun (Step.move_eq_of_equations a.toMatrix_gram_transpose
      (hlinear.damped?_eq hmade.step_eq) hmove))
  have htrial : t.trial = plus start.current.point move := by
    rw [hmade.trial_eq, hstep]
    exact hinside
  have haccepted : t.accepted = true := by
    rw [← hstep] at htrial
    exact (hmade.exact_of_linear hlinear htrial (mt (a.stationary_iff b _).mp hslope)).accepted
  obtain ⟨_, _, hnext⟩ := hmade.next_of_accepted haccepted
  have hpoint : t.next.current.point = plus start.current.point move := by
    rw [hnext, ← htrial]
    rfl
  have hresiduals := (linear_of_states hcourse (Trail.states_succ ht)).residuals_eq
  rw [hpoint] at hresiduals
  -- The one attempt is the last, so the solution shows the state that it led to.
  have hlength : trail.attempts.length = 1 := by
    have hle := hrun.length_le
    have hlt := (List.getElem?_eq_some_iff.mp ht).1
    omega
  have hlast : trail.last start = t.next := by
    have hlast := trail.last_eq start
    rw [hlength, Trail.states_succ ht] at hlast
    exact (Option.some.inj hlast).symm
  obtain ⟨reason, hending⟩ := exists_ending_eq_stopped hcolumns hcourse
  refine ⟨_, (congrArg (Course.outcome false) hcourse).trans
    (Course.outcome_of_stopped hending false), hlength, ?_, ?_⟩
  · rw [hlast]
    exact hpoint
  · rw [hlast, ← hresiduals]
    rfl

end Solve

/-- Solves of linear problems without bounds, with damping that no zero column escapes. An attempt
from a point where the cost has a slope is exact; one from a point where it has none is rejected,
and ends the solve at a local minimum. So there is at most one rejection, at the very end. Every
iteration that is begun is carried through, and no solve fails. -/
theorem minimize_linear (config : Config α) (a : Mat α m n) (b : Vector α m) (x : Vector α n)
    (hbounds : config.bounds.Free) (hcolumns : config.damping = .diagonal → ¬a.HasZeroColumn)
    {size : Nat} {start : State α size n} {trail : Trail α size n}
    (hcourse : minimize config (.linear a b) x = .iterated size start trail) :
    (∀ (k : Nat) (s : State α size n) (t : Attempt α size n), (trail.states start)[k]? = some s →
      trail.attempts[k]? = some t →
      (¬a.Stationary b s.current.point → t.Exact s) ∧
      (t.accepted = false ↔ a.Stationary b s.current.point) ∧
      (t.accepted = false →
        k + 1 = trail.attempts.length ∧ trail.ending = .stopped .localMinimum)) ∧
    (∀ (k : Nat) (s : State α size n), (trail.states start)[k]? = some s →
      trail.GoesOn config.maxIterations
        (.share config.parameterTolerance config.objectiveTolerance n) k →
      ∃ t, trail.attempts[k]? = some t) ∧
    ∃ reason, trail.ending = .stopped reason := by
  obtain ⟨_, _, _, hlaunch, _⟩ := exists_launch hcourse
  obtain rfl := hlaunch.answers.size_eq_of_linear
  refine ⟨?_, fun k s hs hon => exists_attempt_of_goesOn hcolumns hcourse hs hon,
    exists_ending_eq_stopped hcolumns hcourse⟩
  intro k s t hs ht
  obtain ⟨box, hbox, hrun⟩ := exists_free_box hbounds hcourse
  obtain ⟨step, e, hmade⟩ := Setting.made_of_attempt (hrun.attempt_eq hs ht)
  have hlinear := linear_of_states hcourse hs
  have hrejected : t.accepted = false ↔ a.Stationary b s.current.point := by
    constructor
    · intro hrejected
      by_contra hslope
      have hexact := hmade.exact_of_linear hlinear (hmade.trial_eq_of_free hbox) hslope
      rw [hexact.accepted] at hrejected
      cases hrejected
    · exact hmade.accepted_eq_false_of_stationary hlinear
  refine ⟨hmade.exact_of_linear hlinear (hmade.trial_eq_of_free hbox), hrejected, ?_⟩
  intro hfalse
  exact hrun.ending_of_verdict ht (hmade.verdict_of_stationary hlinear (hrejected.mp hfalse))

/-- A matrix without full rank does no harm: the first step from a point with a slope is exact. -/
theorem minimize_linear_rank_one :
    ∃ (start : State ℝ 2 2) (trail : Trail ℝ 2 2) (t : Attempt ℝ 2 2),
      minimize .standard (.linear (.ofFn ![![1, 1], ![2, 2]]) #v[1, 0]) #v[0, 0] =
        .iterated 2 start trail ∧
      trail.attempts[0]? = some t ∧ t.ratio = 1 ∧ t.next.damping.mu = 1 / 600 := by
  let a : Mat ℝ 2 2 := .ofFn ![![1, 1], ![2, 2]]
  have hmu : Damping.initialMu Config.standard.tau a.gram.diagonal.toList = 1 / 200 := by
    have hdiagonal : a.gram.diagonal.toList = [5, 5] := by
      norm_num [Mat.diagonal, Vector.toList_ofFn, Mat.entry_gram_self, a, Fin.sum_univ_two]
    rw [hdiagonal, Damping.initialMu_cons]
    norm_num [Config.standard]
  have hlarge : Scalar.epsilon ≤ (1 / 200 : ℝ) := by
    rw [Scalar.epsilon_eq]
    norm_num
  have hcourse := minimize_linear_eq_iterated a #v[1, 0] #v[0, 0]
    (Config.validate_standard .identity two_ne_zero) (Damping.start?_eq_some hmu hlarge)
  have hslope : ¬a.Stationary #v[1, 0] #v[0, 0] := by
    intro hstationary
    rw [a.stationary_iff, Mat.get_transposeMulVec, get_minus_eq_sub, Mat.get_mulVec] at hstationary
    have hfirst := congrFun hstationary 0
    simp [a, Matrix.mulVec, dotProduct, Fin.sum_univ_two, Vector.get] at hfirst
  obtain ⟨hattempts, hbegun, _⟩ := minimize_linear .standard a #v[1, 0] #v[0, 0]
    Bounds.free_unlimited (fun hdiagonal => by cases hdiagonal) hcourse
  obtain ⟨t, ht⟩ := hbegun 0 _ rfl (Trail.goesOn_zero _ (by decide) _)
  have hexact := (hattempts 0 _ t rfl ht).1 hslope
  refine ⟨_, _, t, hcourse, ht, hexact.ratio_eq, ?_⟩
  rw [hexact.mu_eq]
  change max (1 / 1000000000000 : ℝ) (1 / 200 / 3) = _
  norm_num

end LeastSquares
