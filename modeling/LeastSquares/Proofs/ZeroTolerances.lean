import Mathlib
import LeastSquares.Proofs.Comparison
import LeastSquares.Proofs.Double.Sign
import LeastSquares.Proofs.Run
import LeastSquares.Proofs.Validation

/-! # Solves without tolerances

With tolerances of zero, a solve ends at a local minimum or at the cap. The test on the decrease of
the cost cannot be passed after an accepted attempt whose denominator is not negligible: the gain
ratio is positive then, and so is its numerator, which is that decrease. The largest change of a
parameter is sought from zero upwards, so it is never below zero. Nothing is asked of the costs,
which may be infinite or no numbers at all.
-/

namespace LeastSquares

variable {α : Type} {m n : Nat}

open Scalar

/-- Quotients have the signs that they should have, and counts are positive. What is divided by no
number is none. -/
class LawfulQuotient (α : Type) [Scalar α] : Prop where
  epsilon_pos : (zero : α) < Scalar.epsilon
  count_pos {n : Nat} : n ≠ 0 → (zero : α) < (n : α)
  isNaN_div {a b : α} : isNaN b = true → isNaN (a / b) = true
  pos_of_div_pos {a b : α} : zero < b → zero < a / b → zero < a

instance : LawfulQuotient Float where
  epsilon_pos := by decide +kernel
  count_pos := Double.count_pos
  isNaN_div := Double.isNaN_div
  pos_of_div_pos := Double.pos_of_div_pos

instance {α : Type} [ExactScalar α] : LawfulQuotient α where
  epsilon_pos := by
    rw [zero_eq]
    exact epsilon_pos
  count_pos hn := by
    rw [zero_eq]
    exact Nat.cast_pos.mpr (Nat.pos_of_ne_zero hn)
  isNaN_div {a b} hb := by
    rw [isNaN_eq_false] at hb
    cases hb
  pos_of_div_pos {a b} hb hquotient := by
    rw [zero_eq] at *
    exact (div_pos_iff_of_pos_right hb).mp hquotient

/-- Whether there is a first attempt that, with the state before it, satisfies `p`. -/
def Course.firstSatisfies (p : {m : Nat} → State α m n → Attempt α m n → Bool) :
    Course α n → Bool
  | .invalid _ => false
  | .unusable _ _ => false
  | .stationary _ _ => false
  | .iterated _ start trail => trail.attempts[0]?.any (p start)

theorem Course.exists_of_firstSatisfies
    {p : {m : Nat} → State α m n → Attempt α m n → Bool} {course : Course α n}
    (hcourse : course.firstSatisfies p = true) :
    ∃ (m : Nat) (start : State α m n) (trail : Trail α m n) (a : Attempt α m n),
      course = .iterated m start trail ∧ trail.attempts[0]? = some a ∧ p start a = true := by
  cases course with
  | invalid fault => cases hcourse
  | unusable start fault => cases hcourse
  | stationary m start => cases hcourse
  | iterated m start trail =>
      obtain ⟨a, ha, hp⟩ := (Option.any_eq_true _ _).mp hcourse
      exact ⟨m, start, trail, a, rfl, ha, hp⟩

variable [Scalar α]

section Order

variable [LawfulOrder α]

theorem Scalar.le_larger {a : α} (ha : a ≤ a) (b : α) : a ≤ larger a b := by
  unfold larger
  split
  next hlt => exact le_of_lt hlt
  · rw [isNaN_eq_false_iff.mpr ha, if_neg Bool.false_ne_true]
    exact ha

theorem Scalar.le_foldl_larger {a : α} (ha : a ≤ a) (l : List α) : a ≤ l.foldl larger a := by
  induction l generalizing a with
  | nil => exact ha
  | cons b l ih =>
      have hfirst := le_larger ha b
      exact LawfulOrder.trans hfirst (ih (LawfulOrder.numbers_of_le hfirst).2)

variable [LawfulQuotient α]

/-- The largest change is never below zero. -/
theorem Tolerances.zero_le_largestChange (old new : List α) : zero ≤ largestChange old new := by
  have hzero : (zero : α) ≤ zero :=
    (LawfulOrder.numbers_of_le (le_of_lt LawfulQuotient.epsilon_pos)).1
  exact le_foldl_larger hzero _

/-- A positive gain ratio over a denominator that is not negligible has a positive numerator. -/
theorem Damping.pos_of_gainRatio_pos {cost newCost denominator : α}
    (hdenominator : ¬denominator < Scalar.epsilon)
    (hratio : zero < gainRatio cost newCost denominator) : zero < cost - newCost := by
  have hnumber := (isNaN_eq_false_of_le (le_of_lt hratio)).2
  have hpos : zero < denominator := by
    cases hnan : isNaN denominator with
    | true =>
        rw [gainRatio, LawfulQuotient.isNaN_div hnan] at hnumber
        cases hnumber
    | false =>
        have hepsilon := LawfulQuotient.epsilon_pos (α := α)
        have hle := le_of_not_lt hnan (isNaN_eq_false_of_le (le_of_lt hepsilon)).2 hdenominator
        exact lt_of_lt_of_le hepsilon hle
  exact LawfulQuotient.pos_of_div_pos hpos hratio

/-- No share of a tolerance that is not positive is positive. -/
theorem LawfulQuotient.not_pos_of_share {tolerance : α} (htolerance : tolerance ≤ zero)
    (hn : n ≠ 0) : ¬zero < tolerance / (n : α) := by
  intro hshare
  have hpos := LawfulQuotient.pos_of_div_pos (LawfulQuotient.count_pos hn) hshare
  exact (LawfulOrder.lt_iff.mp hpos).2 htolerance

end Order

namespace Attempt.Made

variable [LawfulOrder α] [LawfulQuotient α] {c : Setting α n} {i : Nat} {s : State α m n}
  {step : Step α n} {e : Evaluation α} {a : Attempt α m n}

/-- An accepted attempt whose denominator is not negligible lowers the cost. -/
theorem drop_pos (ha : a.Made c i s step e) (hdenominator : ¬a.denominator < Scalar.epsilon)
    (haccepted : a.accepted = true) : zero < s.current.cost - a.next.current.cost := by
  have hratio : zero < a.ratio := of_decide_eq_true haccepted
  rw [ha.ratio_eq] at hratio
  rw [ha.denominator_eq] at hdenominator
  rw [ha.cost_of_accepted haccepted]
  exact Damping.pos_of_gainRatio_pos hdenominator hratio

/-- Without tolerances only a negligible denominator is a reason to stop. -/
theorem verdict_of_not_pos (ha : a.Made c i s step e) {t : Tolerances α}
    (hparameters : ¬zero < t.parameters) (hobjective : ¬zero < t.objective) :
    a.verdict t = .running ∨ a.verdict t = .stopped .localMinimum := by
  unfold verdict Tolerances.verdict
  by_cases hdenominator : a.denominator < Scalar.epsilon
  · rw [if_pos hdenominator]
    exact Or.inr rfl
  rw [if_neg hdenominator]
  cases haccepted : a.accepted with
  | false =>
      rw [if_neg (of_decide_eq_false haccepted)]
      exact Or.inl rfl
  | true =>
      have hdrop := ha.drop_pos hdenominator haccepted
      have hchange := Tolerances.zero_le_largestChange s.current.point.toList
        a.next.current.point.toList
      rw [if_pos (of_decide_eq_true haccepted), ha.previous_of_accepted haccepted,
        if_neg fun hlt => hobjective (lt_of_lt_of_le hdrop (le_of_lt hlt)),
        if_neg fun hlt => hparameters (lt_of_le_of_lt hchange hlt)]
      exact Or.inl rfl

end Attempt.Made

/-- Without tolerances, a solve that stops does so at a local minimum or at the cap. Every accepted
attempt whose denominator is not negligible lowers the cost by something positive, and the largest
change of a parameter in it is not below zero. -/
theorem minimize_without_tolerances [LawfulOrder α] [LawfulQuotient α] (config : Config α)
    (problem : Problem α n) (x : Vector α n) (hparameters : config.parameterTolerance ≤ zero)
    (hobjective : config.objectiveTolerance ≤ zero) :
    (∀ recordTrace solution, (minimize config problem x).outcome recordTrace = .ok solution →
      solution.reason = .localMinimum ∨ solution.reason = .iterationCap) ∧
    ∀ (m : Nat) (start : State α m n) (trail : Trail α m n),
      minimize config problem x = .iterated m start trail →
      ∀ (k : Nat) (s : State α m n) (a : Attempt α m n), (trail.states start)[k]? = some s →
        trail.attempts[k]? = some a → ¬a.denominator < Scalar.epsilon → a.accepted = true →
        a.next.previous = s.current ∧ zero < s.current.cost - a.next.current.cost ∧
        ¬Tolerances.largestChange s.current.point.toList a.next.current.point.toList < zero := by
  constructor
  · intro recordTrace solution houtcome
    rcases Course.solution_cases houtcome with
      ⟨m, it, _, rfl⟩ | ⟨m, start, trail, reason, hcourse, hending, rfl⟩
    · exact Or.inl rfl
    obtain ⟨box, _, _, hlaunch, hrun⟩ := exists_launch hcourse
    rcases hrun.stopped_cases hending with ⟨hcap, _⟩ | ⟨k, a, _, ha, hverdict⟩
    · exact Or.inr hcap
    have hn : n ≠ 0 := ((config.validate_eq_ok_iff n box).mp hlaunch.validate_eq).1
    obtain ⟨s, hs⟩ := trail.exists_state start ha
    obtain ⟨step, e, hmade⟩ := Setting.made_of_attempt (hrun.attempt_eq hs ha)
    have hcount : max n 1 ≠ 0 := by omega
    rcases hmade.verdict_of_not_pos (t := (config.setting problem box).tolerances)
        (LawfulQuotient.not_pos_of_share hparameters hcount)
        (LawfulQuotient.not_pos_of_share hobjective hcount) with hrunning | hminimum
    · rw [hrunning] at hverdict
      cases hverdict
    · rw [hminimum] at hverdict
      cases hverdict
      exact Or.inl rfl
  · intro m start trail hcourse k s a hs ha hdenominator haccepted
    obtain ⟨_, _, _, _, hrun⟩ := exists_launch hcourse
    obtain ⟨step, e, hmade⟩ := Setting.made_of_attempt (hrun.attempt_eq hs ha)
    have hchange := Tolerances.zero_le_largestChange s.current.point.toList
      a.next.current.point.toList
    exact ⟨hmade.previous_of_accepted haccepted, hmade.drop_pos hdenominator haccepted,
      fun hlt => (LawfulOrder.lt_iff.mp hlt).2 hchange⟩

/-- A step takes the cost from infinity to zero, and the next one finds nothing more to gain. One of
the tolerances is the negative zero. -/
theorem minimize_without_tolerances_from_infinite_cost :
    let config : Config Float :=
      { Config.standard with parameterTolerance := 0.0, objectiveTolerance := -0.0 }
    let problem : Problem Float 1 := fun k _ _ =>
      .ok ⟨if k = 0 then #[1e200, 1.0] else #[0.0, 0.0], some (.ofMat (.ofFn ![![0.0], ![1.0]]))⟩
    ∃ (solution : Solution Float 1) (m : Nat) (start : State Float m 1) (trail : Trail Float m 1)
        (a : Attempt Float m 1),
      (minimize config problem #v[0.0]).outcome false = .ok solution ∧ solution.iterations = 2 ∧
      (solution.reason = .localMinimum ∨ solution.reason = .iterationCap) ∧
      minimize config problem #v[0.0] = .iterated m start trail ∧
      trail.attempts[0]? = some a ∧ isFinite start.current.cost = false ∧
      zero < start.current.cost - a.next.current.cost := by
  intro config problem
  have hiterations : ((minimize config problem #v[0.0]).outcome false).toOption.map
      Solution.iterations = some 2 := by
    decide +kernel +revert
  have hfirst : (minimize config problem #v[0.0]).firstSatisfies (fun start a =>
      !isFinite start.current.cost && !decide (a.denominator < Scalar.epsilon) &&
        a.accepted) = true := by
    decide +kernel +revert
  obtain ⟨hreason, hattempts⟩ := minimize_without_tolerances config problem #v[0.0]
    (by decide +kernel) (by decide +kernel)
  cases houtcome : (minimize config problem #v[0.0]).outcome false with
  | error fault =>
      rw [houtcome] at hiterations
      cases hiterations
  | ok solution =>
      rw [houtcome] at hiterations
      obtain ⟨m, start, trail, a, hcourse, ha, hvalues⟩ :=
        Course.exists_of_firstSatisfies hfirst
      simp only [Bool.and_eq_true, Bool.not_eq_true', decide_eq_false_iff_not] at hvalues
      obtain ⟨⟨hinfinite, hdenominator⟩, haccepted⟩ := hvalues
      have hstart : (trail.states start)[0]? = some start := trail.states_zero start
      obtain ⟨_, hdrop, _⟩ :=
        hattempts m start trail hcourse 0 start a hstart ha hdenominator haccepted
      exact ⟨solution, m, start, trail, a, rfl, Option.some.inj hiterations,
        hreason false solution houtcome, hcourse, ha, hinfinite, hdrop⟩

end LeastSquares
