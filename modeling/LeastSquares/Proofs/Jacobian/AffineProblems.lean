import Mathlib
import LeastSquares.Proofs.Jacobian.ResidualCounts
import LeastSquares.Proofs.Linear.Matrix

/-! # Probes of affine problems

The residuals of an affine problem change by the same amount over the same move, wherever it starts.
In exact arithmetic a probe therefore compares the images of its move under the matrix of the
problem and under the Jacobian that was answered. The move has the length of the probe, so neither
the base point nor the length of the direction makes a difference, and the check is decided by how
far apart the two images of the unit vector are.
-/

namespace LeastSquares

open Matrix

variable {α : Type} {m n : Nat}

/-- A problem that answers `a x - b`, and some matrix where a Jacobian is wanted. -/
structure Problem.Affine [Scalar α] (problem : Problem α n) (a : Mat α m n) (b : Vector α m)
    (jacobian : Mat α m n) : Prop where
  answers : ∀ k x wantsJacobian, ∃ e : Evaluation α, problem k x wantsJacobian = .ok e ∧
    e.residuals = (minus (a.mulVec x) b).toArray ∧
    (wantsJacobian = true → e.jacobian = some (.ofMat jacobian))

/-- The vector of length one in a direction. -/
def unitVector [Scalar α] (direction : Vector α n) : Vector α n :=
  direction.map fun d => d / norm direction.toList

namespace Probe

section Move

variable [Scalar α]

/-- The way that a probe goes in a direction. -/
def move (p : Probe α) (direction : Vector α n) : Vector α n :=
  direction.map fun d => d / norm direction.toList * p.delta

theorem target?_eq_some {p : Probe α} (base : Vector α n) {direction : Vector α n}
    (hlength : ¬norm direction.toList < Scalar.epsilon) :
    p.target? base direction = some (plus base (p.move direction)) :=
  if_neg hlength

/-- A base point and a direction with a component for each parameter are taken as they are. -/
theorem check_given (p : Probe α) (source : Source α) (problem : Problem α n)
    (base direction : Vector α n) (seed : UInt64) :
    p.check source problem (some base.toList) (some direction.toList) seed =
      p.along problem base direction := by
  obtain ⟨base, hbase⟩ := base
  obtain ⟨direction, hdirection⟩ := direction
  show p.run problem base.toList direction.toList = _
  rw [run, dif_pos ⟨hbase, hdirection⟩]

theorem change?_toList (before after : Vector α m) :
    change? before.toList after.toList = some (minus after before).toList := by
  have hsize : (if before.toList.length = 1 then after.toList.length else before.toList.length) =
      m := by
    rw [Vector.length_toList, Vector.length_toList, ite_self]
  unfold change?
  rw [hsize]
  dsimp only
  rw [spread?_toList, spread?_toList]
  rfl

/-- As many residuals as before are compared with what was predicted. -/
theorem compare_toList (before after : Vector α m) (jacobian : Mat α m n) (move : Vector α n) :
    compare before jacobian move after.toList =
      .ok (.between (minus after before).toList (jacobian.mulVec move).toList) := by
  rw [compare, change?_toList]
  exact Tensor.gap_ofList_of_length_eq (by rw [Vector.length_toList, Vector.length_toList])

/-- What is compared is what was answered. -/
theorem exists_compare_eq {e : Evaluation α} {residuals : Vector α m} {jacobian : Mat α m n}
    (hresiduals : e.residuals = residuals.toArray)
    (hjacobian : e.jacobian = some (.ofMat jacobian)) :
    ∃ answered : Mat α e.residuals.size n, e.jacobianOf e.residuals.size n = .ok answered ∧
      ∀ move after,
        compare e.vector answered move after = compare residuals jacobian move after := by
  obtain ⟨_, _⟩ := e
  obtain ⟨_, rfl⟩ := residuals
  cases hresiduals
  cases hjacobian
  exact ⟨jacobian, Evaluation.jacobianOf_ofMat _ jacobian, fun _ _ => rfl⟩

end Move

end Probe

variable [ExactScalar α]

/-! ### Matrices that are compared -/

/-- How far apart two matrices take a vector. -/
def Mat.mismatch (a jacobian : Mat α m n) (u : Vector α n) : α :=
  norm (Vector.ofFn ((a.toMatrix - jacobian.toMatrix) *ᵥ u.get)).toList

theorem Mat.mismatch_eq_zero {a jacobian : Mat α m n} {u : Vector α n}
    (halike : a.toMatrix *ᵥ u.get = jacobian.toMatrix *ᵥ u.get) : a.mismatch jacobian u = 0 := by
  apply norm_eq_of_mul_self le_rfl
  have hzero : (Vector.ofFn ((a.toMatrix - jacobian.toMatrix) *ᵥ u.get)).get = 0 := by
    funext i
    rw [get_ofFn, sub_mulVec, halike, sub_self]
  rw [hzero, zero_dotProduct, zero_mul]

/-! ### The probe -/

namespace Probe

variable {p : Probe α} {direction : Vector α n}

theorem get_move (p : Probe α) (direction : Vector α n) :
    (p.move direction).get = p.delta • (unitVector direction).get := by
  funext i
  rw [move, get_map, Pi.smul_apply, unitVector, get_map, smul_eq_mul, mul_comm]

/-- A direction of another length leads the same way. -/
theorem move_scaled (p : Probe α) (direction : Vector α n) {c : α} (hc : 0 < c) :
    p.move (direction.map fun d => c * d) = p.move direction := by
  have hnorm : norm (direction.map fun d => c * d).toList = c * norm direction.toList :=
    norm_eq_mul hc.le (funext fun i => get_map ..)
  apply ext_get
  intro i
  rw [move, move, get_map, get_map, get_map, hnorm, mul_div_mul_left _ _ hc.ne']

variable {problem : Problem α n} {a jacobian : Mat α m n} {b : Vector α m}

/-- The residuals change by the image of the move. -/
theorem minus_residuals_plus (a : Mat α m n) (b : Vector α m) (base move : Vector α n) :
    minus (minus (a.mulVec (plus base move)) b) (minus (a.mulVec base) b) = a.mulVec move := by
  apply ext_get
  apply congrFun
  rw [get_minus_eq_sub, get_minus_eq_sub, get_minus_eq_sub, Mat.get_mulVec, Mat.get_mulVec,
    Mat.get_mulVec, get_plus_eq_add, mulVec_add]
  abel

theorem minus_plus (base move : Vector α n) : minus (plus base move) base = move := by
  apply ext_get
  intro i
  rw [get_minus, get_plus, add_sub_cancel_left]

/-- What a probe of an affine problem reports, with no trace of the base point. -/
theorem outcome_along_of_affine (hproblem : problem.Affine a b jacobian) (base : Vector α n)
    (hlength : Scalar.epsilon ≤ norm direction.toList) :
    (p.along problem base direction).outcome = .ok (p.report (.between
      (a.mulVec (p.move direction)).toList (jacobian.mulVec (p.move direction)).toList)) := by
  obtain ⟨start, hstart, hbefore, hjacobian⟩ := hproblem.answers 0 base true
  obtain ⟨finish, hfinish, hafter, _⟩ :=
    hproblem.answers 1 (plus base (p.move direction)) false
  obtain ⟨answered, hanswered, hcompare⟩ := exists_compare_eq hbefore (hjacobian rfl)
  have hcalls := calls_along (target?_eq_some base hlength.not_gt) hstart hanswered hfinish
  obtain ⟨answered', hanswered', houtcome⟩ := along_of_second_call hcalls hstart hfinish
  obtain rfl := Except.ok.inj (hanswered.symm.trans hanswered')
  have htoList : finish.residuals.toList =
      (minus (a.mulVec (plus base (p.move direction))) b).toList := by
    rw [hafter]
    rfl
  rw [houtcome, hcompare, htoList, compare_toList, minus_residuals_plus, minus_plus]
  rfl

/-- The images of the move are as far apart as those of the unit vector, in units of the move. -/
theorem absolute_between (hdelta : 0 < p.delta) (a jacobian : Mat α m n) (direction : Vector α n) :
    (Gap.between (a.mulVec (p.move direction)).toList
      (jacobian.mulVec (p.move direction)).toList).absolute =
      p.delta * a.mismatch jacobian (unitVector direction) := by
  show norm _ = _
  rw [zipWith_sub_toList]
  apply norm_eq_mul hdelta.le
  funext i
  rw [get_minus_eq_sub, Mat.get_mulVec, Mat.get_mulVec, get_move, ← sub_mulVec, mulVec_smul,
    Pi.smul_apply, Pi.smul_apply, get_ofFn]

theorem report_passed_iff (hdelta : 0 < p.delta) {gap : Gap α} {mismatch : α}
    (habsolute : gap.absolute = p.delta * mismatch) :
    (p.report gap).passed = true ↔
      mismatch ≤ p.absoluteFactor ∨ gap.relative ≤ p.relativeFactor * p.delta := by
  rw [report, Gap.within, Bool.or_eq_true, decide_eq_true_iff, decide_eq_true_iff, habsolute,
    mul_comm p.delta, mul_le_mul_iff_left₀ hdelta]

/-- The check of an affine problem in exact arithmetic. The absolute error is the distance of the
images of the unit vector, in units of the length of the probe, so the check passes if the answered
Jacobian and the matrix of the problem agree in the direction of the probe. Otherwise it depends on
the two tolerances. The report is the same for every base point and for every length of the
direction. -/
theorem check_affine (p : Probe α) (source : Source α) (seed : UInt64)
    (hproblem : problem.Affine a b jacobian) (hdelta : 0 < p.delta) (base direction : Vector α n)
    (hlength : Scalar.epsilon ≤ norm direction.toList) :
    ∃ report,
      (p.check source problem (some base.toList) (some direction.toList) seed).outcome =
        .ok report ∧
      report.gap.absolute = p.delta * a.mismatch jacobian (unitVector direction) ∧
      (0 ≤ p.absoluteFactor →
        a.toMatrix *ᵥ (unitVector direction).get = jacobian.toMatrix *ᵥ (unitVector direction).get →
        report.passed = true) ∧
      (report.passed = true ↔ a.mismatch jacobian (unitVector direction) ≤ p.absoluteFactor ∨
        report.gap.relative ≤ p.relativeFactor * p.delta) ∧
      ∀ (base' : Vector α n) (c : α) (source' : Source α) (seed' : UInt64), 0 < c →
        Scalar.epsilon ≤ norm (direction.map fun d => c * d).toList →
        (p.check source' problem (some base'.toList)
          (some (direction.map fun d => c * d).toList) seed').outcome = .ok report := by
  have habsolute := absolute_between hdelta a jacobian direction
  have hpassed := report_passed_iff hdelta habsolute
  rw [check_given, outcome_along_of_affine hproblem base hlength]
  refine ⟨_, rfl, habsolute, ?_, hpassed, ?_⟩
  · intro hfactor halike
    rw [hpassed, Mat.mismatch_eq_zero halike]
    exact Or.inl hfactor
  · intro base' c source' seed' hc hlength'
    rw [check_given, outcome_along_of_affine hproblem base' hlength', move_scaled p direction hc]

/-- A Jacobian with a wrong second column passes along the first axis, with no tolerance at all. -/
theorem check_affine_wrong_column :
    let source : Source ℝ := ⟨Unit, fun _ => (), fun s => (0, s)⟩
    let a : Mat ℝ 1 2 := .ofFn ![![1, 2]]
    let jacobian : Mat ℝ 1 2 := .ofFn ![![1, 5]]
    let problem : Problem ℝ 2 := fun _ x _ =>
      .ok ⟨(minus (a.mulVec x) #v[3]).toArray, some (.ofMat jacobian)⟩
    a ≠ jacobian ∧ ∃ report,
      ((⟨1, 0, 0⟩ : Probe ℝ).check source problem (some #v[4, 7].toList)
        (some #v[1, 0].toList) 0).outcome = .ok report ∧ report.passed = true := by
  intro source a jacobian problem
  have hproblem : problem.Affine a #v[3] jacobian := ⟨fun _ _ _ => ⟨_, rfl, rfl, fun _ => rfl⟩⟩
  have hlength : norm (#v[(1 : ℝ), 0]).toList = 1 := by
    apply norm_eq_of_mul_self zero_le_one
    simp [dotProduct, Vector.get]
  have hepsilon : (Scalar.epsilon : ℝ) ≤ norm (#v[(1 : ℝ), 0]).toList := by
    rw [hlength, Scalar.epsilon_eq]
    norm_num
  obtain ⟨report, houtcome, _, hpassed, _⟩ :=
    check_affine ⟨1, 0, 0⟩ source 0 hproblem one_pos #v[4, 7] #v[1, 0] hepsilon
  refine ⟨?_, report, houtcome, hpassed le_rfl ?_⟩
  · intro heq
    have hentry := congrArg (fun c : Mat ℝ 1 2 => c.entry 0 1) heq
    simp [a, jacobian] at hentry
  · funext i
    simp [a, jacobian, mulVec, dotProduct, unitVector]

end Probe

end LeastSquares
