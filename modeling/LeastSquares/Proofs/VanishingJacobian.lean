import Mathlib
import LeastSquares.Proofs.Double.Product
import LeastSquares.Proofs.Run
import LeastSquares.Proofs.Validation

/-! # Stopping at once

A solve stops where it starts if the largest diagonal entry of the Gauss-Newton matrix leaves too
little damping to begin with. The largest entry is sought among those that are numbers, so the
others do not keep a solve from stopping: with doubles, a Jacobian without a single number in it is
taken for one that vanishes.
-/

namespace LeastSquares

variable {α : Type} {n : Nat}

open Scalar

namespace Scalar

variable [Scalar α]

/-- A number of the list that no other number of it exceeds. -/
structure IsLargest (l : List α) (b : α) : Prop where
  mem : b ∈ l
  number : isNaN b = false
  le : ∀ a ∈ l, isNaN a = false → a ≤ b

theorem largest?_concat (l : List α) (a : α) :
    largest? (l ++ [a]) =
      match largest? l with
      | none => if isNaN a then none else some a
      | some b => some (larger b a) := by
  rw [largest?, List.foldl_append]
  rfl

variable [LawfulOrder α]

theorem IsLargest.concat {l : List α} {b : α} (hb : IsLargest l b) (a : α) :
    IsLargest (l ++ [a]) (larger b a) := by
  unfold larger
  split
  next hlt =>
    have hle := le_of_lt hlt
    refine ⟨List.mem_append_right l List.mem_cons_self, (isNaN_eq_false_of_le hle).2,
      List.forall_mem_append.mpr ⟨?_, List.forall_mem_singleton.mpr isNaN_eq_false_iff.mp⟩⟩
    exact fun x hx hnumber => LawfulOrder.trans (hb.le x hx hnumber) hle
  next hlt =>
    rw [hb.number, if_neg Bool.false_ne_true]
    refine ⟨List.mem_append_left [a] hb.mem, hb.number,
      List.forall_mem_append.mpr ⟨hb.le, List.forall_mem_singleton.mpr ?_⟩⟩
    exact fun hnumber => le_of_not_lt hb.number hnumber hlt

/-- There is a largest number unless there is no number. -/
theorem largest?_cases (l : List α) :
    (largest? l = none ∧ ∀ a ∈ l, isNaN a = true) ∨
      ∃ b, largest? l = some b ∧ IsLargest l b := by
  induction l using List.reverseRecOn with
  | nil => exact Or.inl ⟨rfl, List.forall_mem_nil _⟩
  | append_singleton l a ih =>
      rw [largest?_concat]
      rcases ih with ⟨hnone, hnan⟩ | ⟨b, hb, hlargest⟩
      · rw [hnone]
        cases ha : isNaN a with
        | true =>
            refine Or.inl ⟨rfl, List.forall_mem_append.mpr ⟨hnan, ?_⟩⟩
            exact List.forall_mem_singleton.mpr ha
        | false =>
            refine Or.inr ⟨a, rfl, List.mem_append_right l List.mem_cons_self, ha,
              List.forall_mem_append.mpr ⟨?_, List.forall_mem_singleton.mpr isNaN_eq_false_iff.mp⟩⟩
            intro x hx hnumber
            rw [hnan x hx] at hnumber
            cases hnumber
      · rw [hb]
        exact Or.inr ⟨_, rfl, hlargest.concat a⟩

end Scalar

namespace Damping

/-- Where a factor keeps the order, only entries that are numbers decide whether there is a damping
to start with. -/
theorem start?_eq_none_iff_numbers_small [Scalar α] [LawfulOrder α] {tau : α}
    (hmono : ∀ {a b : α}, a ≤ b → tau * a ≤ tau * b) (hbottom : tau * bottom < epsilon)
    (diagonal : List α) :
    start? tau diagonal = none ↔ ∀ a ∈ diagonal, isNaN a = false → tau * a < epsilon := by
  rw [start?_eq_none_iff, initialMu]
  rcases largest?_cases diagonal with ⟨hnone, hnan⟩ | ⟨b, hb, hlargest⟩
  · rw [hnone, Option.getD_none]
    refine ⟨fun _ a ha hnumber => ?_, fun _ => hbottom⟩
    rw [hnan a ha] at hnumber
    cases hnumber
  · rw [hb, Option.getD_some]
    constructor
    · intro hsmall a ha hnumber
      exact lt_of_le_of_lt (hmono (hlargest.le a ha hnumber)) hsmall
    · exact fun hsmall => hsmall b hlargest.mem hlargest.number

end Damping

open Float.Model (UnpackedFloat) in
theorem Double.mul_bottom_lt_epsilon {tau : Float} (hfinite : tau.isFinite = true)
    (hpos : zero < tau) : tau * bottom < epsilon := by
  obtain ⟨m, e, hm, hunpack⟩ := unpack_of_positive hpos hfinite
  have hbottom : (bottom : Float).toModel.unpack = .infinity .negative := by rfl
  have hproduct : (tau * bottom).toModel.unpack = .infinity .negative := by
    rw [unpack_mul, hunpack, hbottom, UnpackedFloat.mul, positive_mul, UnpackedFloat.pack,
      unpack_packedInfinity]
  have hnegative : tau * bottom < zero := by
    rw [lt_iff, hproduct, unpack_zero]
    exact ⟨_, rfl, _, rfl, by decide⟩
  have hepsilon : (zero : Float) < epsilon := by decide +kernel
  exact lt_of_lt_of_le hnegative (le_of_lt hepsilon)

namespace Damping

/-- With doubles, there is no damping to start with exactly if all diagonal entries that are numbers
are too small. -/
theorem start?_diagonal_eq_none_iff {tau : Float} (hfinite : tau.isFinite = true)
    (hpos : zero < tau) (gram : Mat Float n n) :
    start? tau gram.diagonal.toList = none ↔
      ∀ i, isNaN (gram.entry i i) = false → tau * gram.entry i i < epsilon := by
  rw [start?_eq_none_iff_numbers_small (Double.mul_le_mul_left hpos hfinite)
    (Double.mul_bottom_lt_epsilon hfinite hpos)]
  constructor
  · intro hsmall i
    rw [← gram.get_diagonal i]
    exact hsmall _ (Vector.mem_toList_iff.mpr (Vector.getElem_mem i.isLt))
  · intro hsmall a ha
    obtain ⟨i, hi, rfl⟩ := Vector.mem_iff_getElem.mp (Vector.mem_toList_iff.mp ha)
    have hentry := hsmall ⟨i, hi⟩
    rw [← gram.get_diagonal] at hentry
    exact hentry

end Damping

/-- A solve stops at once if its start can be evaluated and leaves no damping to begin with. -/
theorem minimize_stops_at_once_iff [Scalar α] (config : Config α) (problem : Problem α n)
    (x : Vector α n) (recordTrace : Bool) :
    (∃ solution, (minimize config problem x).outcome recordTrace = .ok solution ∧
      solution.reason = .localMinimum ∧ solution.iterations = 0) ↔
    ∃ box e, ∃ jacobian : Mat α e.residuals.size n,
      config.validate n = .ok box ∧ problem 0 x true = .ok e ∧
      e.jacobianOf e.residuals.size n = .ok jacobian ∧
      Damping.start? config.tau jacobian.gram.diagonal.toList = none := by
  constructor
  · rintro ⟨solution, houtcome, hreason, hiterations⟩
    rcases Course.solution_cases houtcome with
      ⟨m, it, hcourse, _⟩ | ⟨m, start, trail, reason, hcourse, hending, rfl⟩
    · obtain ⟨box, e, jacobian, hrest⟩ := exists_rest hcourse
      have hanswer := hrest.answers.answer_eq
      rw [hrest.point_eq] at hanswer
      obtain rfl := hrest.answers.size_eq
      exact ⟨box, e, jacobian, hrest.validate_eq, hanswer, hrest.answers.jacobian_eq,
        hrest.damping_eq⟩
    · -- Any other end at a local minimum comes after an attempt.
      obtain ⟨box, _, _, _, hrun⟩ := exists_launch hcourse
      obtain rfl : reason = .localMinimum := hreason
      have hlength : trail.attempts.length = 0 := hiterations
      rcases hrun.stopped_cases hending with ⟨hcap, _⟩ | ⟨k, a, hk, _⟩
      · cases hcap
      · omega
  · rintro ⟨box, e, jacobian, hvalid, hanswer, hjacobian, hdamping⟩
    rw [minimize_eq_stationary hvalid hanswer hjacobian hdamping]
    exact ⟨_, rfl, rfl, rfl⟩

/-- A problem that answers the same everywhere. -/
def Problem.constant {m : ℕ} (residuals : Vector α m) (jacobian : Mat α m n) : Problem α n :=
  fun _ _ _ => .ok ⟨residuals.toArray, some (.ofMat jacobian)⟩

theorem Config.validate_standard_double (hn : n ≠ 0) :
    (standard : Config Float).validate n = .ok ⟨none, none⟩ := by
  rw [validate_eq_ok_iff]
  refine ⟨hn, ⟨?_, ?_⟩, ⟨?_, ?_⟩, ⟨?_, ?_⟩, Bounds.validate_unlimited n⟩ <;> decide +kernel

/-- With doubles, there is no damping to start with exactly if all diagonal entries that are numbers
are too small, and a solve stops at once exactly if it finds them so where it starts. Entries that
are not numbers are passed over. So it is the same as that all entries are small, unless one of them
is not a number and those that are numbers are small. -/
theorem stops_at_once_iff_numbers_vanish {tau : Float} (hfinite : tau.isFinite = true)
    (hpos : zero < tau) (gram : Mat Float n n) (config : Config Float) (problem : Problem Float n)
    (x : Vector Float n) (recordTrace : Bool) :
    (Damping.start? tau gram.diagonal.toList = none ↔
      ∀ i, isNaN (gram.entry i i) = false → tau * gram.entry i i < epsilon) ∧
    ((Damping.start? tau gram.diagonal.toList = none ↔ ∀ i, tau * gram.entry i i < epsilon) ↔
      (∀ i, isNaN (gram.entry i i) = false) ∨
        ∃ i, isNaN (gram.entry i i) = false ∧ ¬tau * gram.entry i i < epsilon) ∧
    ((∃ solution, (minimize config problem x).outcome recordTrace = .ok solution ∧
        solution.reason = .localMinimum ∧ solution.iterations = 0) ↔
      ∃ box e, ∃ jacobian : Mat Float e.residuals.size n,
        config.validate n = .ok box ∧ problem 0 x true = .ok e ∧
        e.jacobianOf e.residuals.size n = .ok jacobian ∧
        ∀ j, isNaN (jacobian.gram.entry j j) = false →
          config.tau * jacobian.gram.entry j j < epsilon) := by
  have hstart := Damping.start?_diagonal_eq_none_iff hfinite hpos gram
  refine ⟨hstart, ?_, ?_⟩
  · -- A product with what is not a number is not small.
    have hall : (∀ i, tau * gram.entry i i < epsilon) ↔
        (∀ i, isNaN (gram.entry i i) = false → tau * gram.entry i i < epsilon) ∧
          ∀ i, isNaN (gram.entry i i) = false := by
      constructor
      · intro hsmall
        exact ⟨fun i _ => hsmall i, fun i => Double.number_of_mul_lt (hsmall i)⟩
      · rintro ⟨hsmall, hnumber⟩ i
        exact hsmall i (hnumber i)
    have hlarge : (∃ i, isNaN (gram.entry i i) = false ∧ ¬tau * gram.entry i i < epsilon) ↔
        ¬Damping.start? tau gram.diagonal.toList = none := by
      rw [hstart]
      push Not
      rfl
    rw [hall, ← hstart, hlarge]
    tauto
  · rw [minimize_stops_at_once_iff]
    refine exists_congr fun box => exists_congr fun e => exists_congr fun jacobian =>
      and_congr_right fun hvalid => and_congr_right fun _ => and_congr_right fun _ => ?_
    -- The options are checked first, so the damping scale is positive and finite.
    obtain ⟨_, ⟨htau, hscale⟩, _⟩ := (config.validate_eq_ok_iff n box).mp hvalid
    exact Damping.start?_diagonal_eq_none_iff htau hscale jacobian.gram

/-- Beside an entry that is not a number a zero is small, and a solve stops for it. -/
theorem stops_at_once_beside_nan :
    let jacobian : Mat Float 1 2 := .ofFn ![![zero / zero, zero]]
    let problem : Problem Float 2 := .constant #v[one] jacobian
    Damping.start? Config.standard.tau jacobian.gram.diagonal.toList = none ∧
    ∃ solution, (minimize .standard problem #v[zero, zero]).outcome false = .ok solution ∧
      solution.reason = .localMinimum ∧ solution.iterations = 0 := by
  intro jacobian problem
  have hsmall : ∀ j, isNaN (jacobian.gram.entry j j) = false →
      Config.standard.tau * jacobian.gram.entry j j < epsilon := by
    decide +kernel
  have htau : (Config.standard : Config Float).tau.isFinite = true := by decide +kernel
  have hpos : zero < (Config.standard : Config Float).tau := by decide +kernel
  obtain ⟨hstart, _, hsolve⟩ := stops_at_once_iff_numbers_vanish htau hpos jacobian.gram .standard
    problem #v[zero, zero] false
  refine ⟨hstart.mpr hsmall, hsolve.mpr ?_⟩
  exact ⟨_, ⟨#[one], some (.ofMat jacobian)⟩, jacobian,
    Config.validate_standard_double two_ne_zero, rfl, Evaluation.jacobianOf_ofMat #[one] jacobian,
    hsmall⟩

/-- A Jacobian without numbers is not small, but a solve stops as if it were. -/
theorem stops_at_once_without_numbers :
    let jacobian : Mat Float 1 1 := .ofFn ![![zero / zero]]
    let problem : Problem Float 1 := .constant #v[one] jacobian
    isNaN (jacobian.gram.entry 0 0) = true ∧
    ¬Config.standard.tau * jacobian.gram.entry 0 0 < epsilon ∧
    Damping.start? Config.standard.tau jacobian.gram.diagonal.toList = none ∧
    ∃ solution, (minimize .standard problem #v[zero]).outcome false = .ok solution ∧
      solution.reason = .localMinimum ∧ solution.iterations = 0 := by
  intro jacobian problem
  have hnone : Damping.start? Config.standard.tau jacobian.gram.diagonal.toList = none := by
    rw [Damping.start?_eq_none_iff]
    decide +kernel
  refine ⟨by decide +kernel, by decide +kernel, hnone, ?_⟩
  exact (minimize_stops_at_once_iff .standard problem #v[zero] false).mpr
    ⟨_, ⟨#[one], some (.ofMat jacobian)⟩, jacobian,
      Config.validate_standard_double one_ne_zero, rfl,
      Evaluation.jacobianOf_ofMat #[one] jacobian, hnone⟩

end LeastSquares
