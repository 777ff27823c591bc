import Mathlib
import LeastSquares.Proofs.Clipping
import LeastSquares.Proofs.LinearDescent
import LeastSquares.Proofs.Projection

/-! # Approaching the solutions of a linear problem

In exact arithmetic and under identity damping, no solve of a linear problem moves away from any
point where the cost has no slope, if that point keeps to the bounds. A damped step does not, since
it and what is left of the way then make no acute angle. Clipping does not either, as it moves every
component towards the limits that the point keeps to. A rejected step moves nothing.
-/

namespace LeastSquares

open Matrix

variable {α : Type} {m n : Nat}

/-- The Euclidean distance of two points. -/
def distance [Scalar α] (u v : Vector α n) : α := norm (minus u v).toList

variable [ExactScalar α]

/-- Distances compare as their squares do. -/
theorem distance_le_distance_iff (u v z : Vector α n) :
    distance u z ≤ distance v z ↔
      (u.get - z.get) ⬝ᵥ (u.get - z.get) ≤ (v.get - z.get) ⬝ᵥ (v.get - z.get) := by
  rw [distance, distance, norm_le_norm_iff, get_minus_eq_sub, get_minus_eq_sub]

theorem distance_le_of_abs_le {u v z : Vector α n}
    (habs : ∀ i, |u.get i - z.get i| ≤ |v.get i - z.get i|) : distance u z ≤ distance v z := by
  rw [distance_le_distance_iff]
  apply Finset.sum_le_sum
  intro i _
  exact abs_le_iff_mul_self_le.mp (habs i)

namespace Mat

variable {a : Mat α m n} {b : Vector α m} {z : Vector α n}

/-- The gradient is linear in the way from a point where there is none. -/
theorem Stationary.gradient_eq (hz : a.Stationary b z) (x : Vector α n) :
    (a.transposeMulVec (minus (a.mulVec x) b)).get = a.gram.toMatrix *ᵥ (x.get - z.get) := by
  rw [a.stationary_iff, get_transposeMulVec, get_minus_eq_sub, get_mulVec, mulVec_sub,
    sub_eq_zero] at hz
  rw [get_transposeMulVec, get_minus_eq_sub, get_mulVec, mulVec_sub, ← hz, toMatrix_gram,
    ← mulVec_mulVec, mulVec_sub, mulVec_sub]

end Mat

namespace Step

variable {a : Mat α m n} {b : Vector α m} {x z damping : Vector α n} {mu : α} {step : Step α n}

/-- What is left of the way after a damped step, as the damped equations have it. -/
theorem gram_mulVec_rest (hz : a.Stationary b z) (hdamping : ∀ i, damping.get i = mu)
    (hstep : damped? a.gram (a.transposeMulVec (minus (a.mulVec x) b)) damping = some step) :
    a.gram.toMatrix *ᵥ (x.get - z.get + step.move.get) = -(mu • step.move.get) := by
  have hequations := normal_equations a.toMatrix_gram_transpose hstep
  have hconstant : diagonal damping.get *ᵥ step.move.get = mu • step.move.get := by
    funext i
    rw [mulVec_diagonal, hdamping]
    rfl
  rw [hz.gradient_eq, add_mulVec, hconstant] at hequations
  rw [mulVec_add, eq_neg_iff_add_eq_zero]
  rw [eq_neg_iff_add_eq_zero] at hequations
  rw [← hequations]
  abel

/-- The move and what is then left of the way make no acute angle. -/
theorem rest_dotProduct_move_nonpos (hz : a.Stationary b z) (hmu : 0 < mu)
    (hdamping : ∀ i, damping.get i = mu)
    (hstep : damped? a.gram (a.transposeMulVec (minus (a.mulVec x) b)) damping = some step) :
    (x.get - z.get + step.move.get) ⬝ᵥ step.move.get ≤ 0 := by
  have hform := a.gram_form_nonneg (x.get - z.get + step.move.get)
  rw [gram_mulVec_rest hz hdamping hstep, dotProduct_neg, dotProduct_smul, smul_eq_mul] at hform
  exact nonpos_of_mul_nonpos_right (neg_nonneg.mp hform) hmu

/-- A step under constant damping does not lead away from a stationary point. -/
theorem distance_le (hz : a.Stationary b z) (hmu : 0 < mu) (hdamping : ∀ i, damping.get i = mu)
    (hstep : damped? a.gram (a.transposeMulVec (minus (a.mulVec x) b)) damping = some step) :
    distance (plus x step.move) z ≤ distance x z := by
  have hangle := rest_dotProduct_move_nonpos hz hmu hdamping hstep
  have hmove := dotProduct_self_nonneg step.move.get
  have hrest : (plus x step.move).get - z.get = x.get - z.get + step.move.get := by
    rw [get_plus_eq_add]
    abel
  -- With `e` the way before and `h` the move, `|e + h|² = |e|² + 2 (e + h) · h - |h|²`.
  rw [distance_le_distance_iff, hrest]
  rw [add_dotProduct] at hangle
  rw [add_dotProduct, dotProduct_add, dotProduct_add, dotProduct_comm step.move.get]
  linarith

end Step

/-- Clipping does not lead away from a point that keeps to the bounds. -/
theorem Bounds.distance_clip_le {bounds : Bounds α} {box : Box α n} {z : Vector α n}
    (hbox : bounds.validate n = .ok box) (hz : bounds.Holds z) (x : Vector α n) :
    distance (box.clip x) z ≤ distance x z := by
  have hstays := (bounds.clip_eq_iff hbox z).mpr hz
  apply distance_le_of_abs_le
  intro i
  calc
    |(box.clip x).get i - z.get i| = |(box.clip x).get i - (box.clip z).get i| := by rw [hstays]
    _ ≤ |x.get i - z.get i| := by
      rw [Box.get_clip, Box.get_clip]
      exact Box.abs_value_sub_le (FiniteOrFree.of_exact _) (FiniteOrFree.of_exact _)
        (Scalar.isFinite_eq_true (x.get i)) (Scalar.isFinite_eq_true (z.get i))

section Solve

variable {config : Config α} {a : Mat α m n} {b : Vector α m} {x z : Vector α n}

/-- One attempt does not lead away from a stationary point that keeps to the bounds. -/
theorem Attempt.Made.distance_le {box : Box α n} {i : Nat} {s : State α m n} {step : Step α n}
    {e : Evaluation α} {t : Attempt α m n}
    (ht : t.Made (config.setting (.linear a b) box) i s step e) (hs : s.Linear a b)
    (hidentity : config.damping = .identity) (hbox : config.bounds.validate n = .ok box)
    (hz : a.Stationary b z) (hholds : config.bounds.Holds z) :
    distance t.next.current.point z ≤ distance s.current.point z := by
  rcases ht.decision with ⟨_, jacobian, _, hnext⟩ | ⟨_, hnext⟩
  · have hstep := hs.damped?_eq ht.step_eq
    have hconstant : ∀ i, ((config.setting (.linear a b) box).style.vector s.damping.mu
        a.gram).get i = s.damping.mu := by
      intro i
      change (config.damping.vector s.damping.mu a.gram).get i = s.damping.mu
      rw [hidentity, DampingStyle.get_vector_identity]
    calc
      distance t.next.current.point z
        = distance (box.clip (plus s.current.point step.move)) z := by
        rw [hnext]
        exact congrArg (distance · z) ht.trial_eq
      _ ≤ distance (plus s.current.point step.move) z := Bounds.distance_clip_le hbox hholds _
      _ ≤ distance s.current.point z :=
        Step.distance_le hz hs.regular.positive.mu_pos hconstant hstep
  · rw [hnext]
    exact le_refl _

variable {start s s' : State α m n} {trail : Trail α m n}

/-- The distance never grows from one state of a solve to a later one. -/
theorem distance_le_of_states (hidentity : config.damping = .identity) (hz : a.Stationary b z)
    (hholds : config.bounds.Holds z)
    (hcourse : minimize config (.linear a b) x = .iterated m start trail) {j k : Nat} (hjk : j ≤ k)
    (hs : (trail.states start)[j]? = some s) (hs' : (trail.states start)[k]? = some s') :
    distance s'.current.point z ≤ distance s.current.point z := by
  obtain ⟨box, _, _, hlaunch, hrun⟩ := exists_launch hcourse
  have hbox := Config.validate_bounds hlaunch.validate_eq
  -- One attempt after the other, from state `j` on.
  induction k, hjk using Nat.le_induction generalizing s' with
  | base =>
      rw [← Option.some.inj (hs.symm.trans hs')]
  | succ k _ ih =>
      obtain ⟨t, ht, rfl⟩ := Trail.exists_attempt_of_states_succ hs'
      obtain ⟨before, hbefore⟩ := trail.exists_state start ht
      obtain ⟨step, e, hmade⟩ := Setting.made_of_attempt (hrun.attempt_eq hbefore ht)
      exact (hmade.distance_le (linear_of_states hcourse hbefore) hidentity hbox hz hholds).trans
        (ih hbefore)

end Solve

/-- Under identity damping, no solve of a linear problem moves away from a point that keeps to the
bounds and where the cost has no slope: the distance to it never grows from one state to a later
one, and the solution is no farther from it than the start. -/
theorem minimize_approaches (config : Config α) (a : Mat α m n) (b : Vector α m)
    (x z : Vector α n) (hidentity : config.damping = .identity) (hz : a.Stationary b z)
    (hholds : config.bounds.Holds z) :
    (∀ (size : Nat) (start : State α size n) (trail : Trail α size n),
      minimize config (.linear a b) x = .iterated size start trail →
      start.current.point = x ∧
      ∀ (j k : Nat) (s s' : State α size n), j ≤ k → (trail.states start)[j]? = some s →
        (trail.states start)[k]? = some s' →
        distance s'.current.point z ≤ distance s.current.point z) ∧
    ∀ recordTrace solution,
      (minimize config (.linear a b) x).outcome recordTrace = .ok solution →
      distance solution.point z ≤ distance x z := by
  constructor
  · intro size start trail hcourse
    obtain ⟨_, _, _, hlaunch, _⟩ := exists_launch hcourse
    obtain rfl := hlaunch.answers.size_eq_of_linear
    exact ⟨hlaunch.point_eq, fun j k s s' hjk hs hs' =>
      distance_le_of_states hidentity hz hholds hcourse hjk hs hs'⟩
  · intro recordTrace solution houtcome
    rcases Course.solution_cases houtcome with
      ⟨size, it, hcourse, rfl⟩ | ⟨size, start, trail, reason, hcourse, _, rfl⟩
    · obtain ⟨rfl, _⟩ := answers_of_stationary hcourse
      exact le_refl _
    · obtain ⟨_, _, _, hlaunch, _⟩ := exists_launch hcourse
      obtain rfl := hlaunch.answers.size_eq_of_linear
      rw [← hlaunch.point_eq]
      exact distance_le_of_states hidentity hz hholds hcourse (Nat.zero_le _)
        (trail.states_zero start) (trail.last_eq start)

/-- From a start outside the bounds, towards one of many solutions. -/
theorem minimize_approaches_rank_one :
    let config : Config ℝ := { Config.standard with bounds := ⟨[some 0, none], []⟩ }
    let a : Mat ℝ 2 2 := .ofFn ![![1, 1], ![2, 2]]
    ∃ (start : State ℝ 2 2) (trail : Trail ℝ 2 2) (t : Attempt ℝ 2 2),
      minimize config (.linear a #v[1, 0]) #v[-1, 0] = .iterated 2 start trail ∧
      trail.attempts[0]? = some t ∧
      distance t.next.current.point #v[1 / 5, 0] ≤ distance #v[-1, 0] #v[1 / 5, 0] := by
  intro config a
  have hvalid : config.validate 2 = .ok ⟨some #v[some 0, none], none⟩ :=
    Config.validate_standard_bounds .identity two_ne_zero rfl
  have hlarge : Scalar.epsilon ≤ config.tau * a.gram.entry 0 0 := by
    rw [Scalar.epsilon_eq]
    norm_num [a, Mat.entry_gram_self, config, Config.standard]
  have hstationary : a.Stationary #v[1, 0] #v[1 / 5, 0] := by
    rw [a.stationary_iff, Mat.get_transposeMulVec, get_minus_eq_sub, Mat.get_mulVec]
    ext i
    fin_cases i
    · simp [a, Matrix.mulVec, dotProduct, Fin.sum_univ_two]
      norm_num
    · simp [a, Matrix.mulVec, dotProduct, Fin.sum_univ_two]
      norm_num
  have hholds : config.bounds.Holds #v[1 / 5, 0] := by
    rw [← Bounds.clip_eq_iff (Config.validate_bounds hvalid)]
    apply ext_get
    intro i
    rw [Box.get_clip]
    fin_cases i
    · norm_num [Box.raised, Box.lowered, Limits.at, Vector.get]
    · norm_num [Box.raised, Box.lowered, Limits.at, Vector.get]
  obtain ⟨start, trail, hcourse⟩ := exists_linear_eq_iterated a #v[1, 0] #v[-1, 0] hvalid 0 hlarge
  obtain ⟨t, ht⟩ := exists_attempt_of_goesOn (fun hdiagonal => by cases hdiagonal) hcourse
    (trail.states_zero start) (trail.goesOn_zero (by decide) _)
  obtain ⟨hpoint, hdistance⟩ :=
    (minimize_approaches config a #v[1, 0] #v[-1, 0] #v[1 / 5, 0] rfl hstationary hholds).1
      2 start trail hcourse
  have hfirst := hdistance 0 1 start t.next (Nat.zero_le 1) (trail.states_zero start)
    (Trail.states_succ ht)
  rw [hpoint] at hfirst
  exact ⟨start, trail, t, hcourse, ht, hfirst⟩

end LeastSquares
