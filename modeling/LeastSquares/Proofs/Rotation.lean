import Mathlib
import LeastSquares.Proofs.LinearDescent
import LeastSquares.Proofs.Translation

/-! # Rotated residuals

A matrix with orthonormal columns keeps inner products. If residuals and Jacobians are multiplied by
one, the cost and the normal equations stay what they were, and a solve looks at nothing else. So it
evaluates the same points and takes the same decisions, and in the end only the residuals are
rotated. Permuted residuals are a special case, and so are residuals padded with zeros: the number
of them may grow.
-/

namespace LeastSquares

open Matrix

variable {α : Type} {k m n : Nat}

section Definitions

variable [Scalar α]

/-- The product of two matrices. -/
def Mat.times (a : Mat α k m) (b : Mat α m n) : Mat α k n :=
  .ofFn fun i j => dot (a.row i) (b.column j)

/-- A list of `m` residuals multiplied by a matrix. Other lists stay as they are. -/
def Mat.turnList (q : Mat α k m) (l : List α) : List α :=
  if h : l.toArray.size = m then (q.mulVec ⟨l.toArray, h⟩).toList else l

/-- A Jacobian with `m` rows multiplied by a matrix. Other tables stay as they are. -/
def Mat.turnTable (q : Mat α k m) (t : Table α) : Table α :=
  match t.toMat? m t.width with
  | none => t
  | some a => .ofMat (q.times a)

def Evaluation.turn (q : Mat α k m) (e : Evaluation α) : Evaluation α :=
  ⟨(q.turnList e.residuals.toList).toArray, e.jacobian.map q.turnTable⟩

/-- The problem that answers `q f` and `q J` where the given one answers `f` and `J`. -/
def Problem.turn (q : Mat α k m) (problem : Problem α n) : Problem α n :=
  fun i x wantsJacobian => (problem i x wantsJacobian).map (Evaluation.turn q)

/-- Every call is answered, with `m` residuals and a Jacobian of as many rows. -/
def Problem.Complete (problem : Problem α n) (m : Nat) : Prop :=
  ∀ i x, ∃ e, problem i x true = .ok e ∧ e.residuals.size = m ∧
    ∃ jacobian, e.jacobianOf m n = .ok jacobian

def Iterate.turn (q : Mat α k m) (it : Iterate α m n) : Iterate α k n :=
  ⟨it.point, q.mulVec it.residuals, it.cost, it.gram, it.gradient⟩

/-- Points stay, residuals are rotated. -/
def Mat.rotation (q : Mat α k m) (n : Nat) : Translation α n := ⟨id, q.turnList⟩

end Definitions

namespace Mat

variable [Scalar α]

theorem turnList_toList (q : Mat α k m) (v : Vector α m) :
    q.turnList v.toList = (q.mulVec v).toList := by
  simp [turnList, Vector.toList]

theorem turnTable_eq (q : Mat α k m) {t : Table α} {a : Mat α m n} (ha : t.toMat? m n = some a) :
    (q.turnTable t).toMat? k n = some (q.times a) := by
  obtain ⟨_, rfl⟩ := Table.shape_of_toMat? ha
  rw [turnTable, ha]
  exact Table.toMat?_ofMat (q.times a)

end Mat

section Exact

variable [ExactScalar α]

/-- The columns have length one and are perpendicular to each other. -/
def Mat.Orthonormal (q : Mat α k m) : Prop := q.toMatrixᵀ * q.toMatrix = 1

namespace Mat

theorem toMatrix_times (a : Mat α k m) (b : Mat α m n) :
    (a.times b).toMatrix = a.toMatrix * b.toMatrix := by
  ext i j
  rw [toMatrix_apply, times, entry_ofFn, dot_eq_dotProduct, mul_apply]
  simp [dotProduct]

variable {q : Mat α k m}

namespace Orthonormal

theorem dot_mulVec (hq : q.Orthonormal) (v w : Vector α m) :
    dot (q.mulVec v) (q.mulVec w) = dot v w := by
  rw [dot_eq_dotProduct, dot_eq_dotProduct, get_mulVec, get_mulVec, ← dotProduct_gram, hq,
    one_mulVec]

theorem gram_times (hq : q.Orthonormal) (a : Mat α m n) : (q.times a).gram = a.gram := by
  have hmatrix : (q.times a).gram.toMatrix = a.gram.toMatrix := by
    rw [toMatrix_gram, toMatrix_gram, toMatrix_times, transpose_mul, Matrix.mul_assoc,
      ← Matrix.mul_assoc q.toMatrixᵀ, hq, Matrix.one_mul]
  apply ext_entry
  intro i j
  exact congrFun (congrFun hmatrix i) j

theorem transposeMulVec_times (hq : q.Orthonormal) (a : Mat α m n) (v : Vector α m) :
    (q.times a).transposeMulVec (q.mulVec v) = a.transposeMulVec v := by
  have hvector : ((q.times a).transposeMulVec (q.mulVec v)).get = (a.transposeMulVec v).get := by
    rw [get_transposeMulVec, get_transposeMulVec, get_mulVec, toMatrix_times, transpose_mul,
      mulVec_mulVec, Matrix.mul_assoc, hq, Matrix.mul_one]
  apply ext_get
  intro j
  exact congrFun hvector j

/-- What an evaluation gives is the same, but for the residuals. -/
theorem iterate_of (hq : q.Orthonormal) (p : Vector α n) (v : Vector α m) (a : Mat α m n) :
    Iterate.of p (q.mulVec v) (q.times a) = (Iterate.of p v a).turn q := by
  rw [Iterate.of, hq.dot_mulVec, hq.gram_times, hq.transposeMulVec_times]
  rfl

end Orthonormal

end Mat

namespace Evaluation

variable {q : Mat α k m} {e : Evaluation α}

theorem residuals_turn (q : Mat α k m) (hsize : e.residuals.size = m) :
    (e.turn q).residuals = (q.mulVec ⟨e.residuals, hsize⟩).toArray := by
  have hlist : q.turnList e.residuals.toList = (q.mulVec ⟨e.residuals, hsize⟩).toList :=
    q.turnList_toList ⟨e.residuals, hsize⟩
  rw [turn, hlist]
  rfl

theorem size_turn (q : Mat α k m) (hsize : e.residuals.size = m) :
    (e.turn q).residuals.size = k := by
  rw [residuals_turn q hsize]
  exact Vector.size_toArray _

theorem vector_turn (q : Mat α k m) (hsize : e.residuals.size = m) :
    (⟨(e.turn q).residuals, size_turn q hsize⟩ : Vector α k) = q.mulVec ⟨e.residuals, hsize⟩ :=
  Vector.toArray_inj.mp (residuals_turn q hsize)

theorem cost_turn (hq : q.Orthonormal) (hsize : e.residuals.size = m) :
    (e.turn q).cost = e.cost := by
  rw [cost_eq_dot _ (size_turn q hsize), vector_turn q hsize, hq.dot_mulVec, ← cost_eq_dot]

theorem jacobianOf_turn (q : Mat α k m) {jacobian : Mat α m n}
    (hjacobian : e.jacobianOf m n = .ok jacobian) :
    (e.turn q).jacobianOf k n = .ok (q.times jacobian) := by
  unfold jacobianOf at hjacobian ⊢
  split at hjacobian
  · cases hjacobian
  next t ht =>
    split at hjacobian
    · cases hjacobian
    next a ha =>
      cases hjacobian
      rw [turn, ht]
      dsimp only [Option.map_some]
      rw [q.turnTable_eq ha]

end Evaluation

namespace Mat.Orthonormal

variable {q : Mat α k m}

theorem carries (q : Mat α k m) (n : Nat) : (q.rotation n).Carries (Iterate.turn q) where
  point_eq _ := rfl
  residuals_eq it := (q.turnList_toList it.residuals).symm
  cost_eq _ := rfl

theorem answersAlike (hq : q.Orthonormal) {problem : Problem α n} (hproblem : problem.Complete m)
    (i : Nat) (p : Vector α n) :
    (q.rotation n).AnswersAlike (Iterate.turn q) p (problem i p true)
      (problem.turn q i p true) := by
  obtain ⟨e, hanswer, hsize, jacobian, hjacobian⟩ := hproblem i p
  rw [Problem.turn, hanswer]
  refine .iterate hsize (Evaluation.size_turn q hsize) (Evaluation.cost_turn hq hsize) hjacobian
    (Evaluation.jacobianOf_turn q hjacobian) ?_
  rw [Evaluation.vector_turn q hsize]
  exact hq.iterate_of p _ jacobian

/-- Nothing in an attempt depends on the residuals but for their cost. -/
theorem simulates (hq : q.Orthonormal) {problem : Problem α n} (hproblem : problem.Complete m)
    (config : Config α) (box : Box α n) :
    (q.rotation n).Simulates (Iterate.turn q) (fun _ => True) (config.setting problem box)
      (config.setting (problem.turn q) box) where
  carries := carries q n
  good_of _ _ _ := trivial
  step_none _ _ hnone := hnone
  step_some _ step _ hstep := ⟨step, hstep, rfl, rfl⟩
  answers := hq.answersAlike hproblem
  verdict _ _ _ _ _ _ := rfl

theorem translates (hq : q.Orthonormal) {problem : Problem α n} (hproblem : problem.Complete m)
    (config : Config α) (x : Vector α n) :
    (q.rotation n).Translates (minimize config problem x) (minimize config (problem.turn q) x) := by
  cases hvalid : config.validate n with
  | error fault =>
      rw [minimize_eq_invalid_iff.mpr hvalid, minimize_eq_invalid_iff.mpr hvalid]
      exact .invalid fault
  | ok box =>
      obtain ⟨e, hanswer, hsize, _⟩ := hproblem 0 x
      exact (hq.simulates hproblem config box).translates hvalid hvalid rfl (fun _ => rfl) hanswer
        hsize

end Mat.Orthonormal

/-- A solution of a problem that answers `m` residuals has as many. -/
theorem Problem.Complete.exists_residuals {problem : Problem α n} (hproblem : problem.Complete m)
    {config : Config α} {x : Vector α n} {recordTrace : Bool} {solution : Solution α n}
    (houtcome : (minimize config problem x).outcome recordTrace = .ok solution) :
    ∃ f : Vector α m, solution.residuals = f.toList := by
  obtain ⟨e, hanswer, hsize, _⟩ := hproblem 0 x
  rcases Course.solution_cases houtcome with
    ⟨m', it, hcourse, rfl⟩ | ⟨m', start, trail, reason, hcourse, _, rfl⟩
  · obtain ⟨rfl, e', _, hanswers⟩ := answers_of_stationary hcourse
    cases hanswer.symm.trans hanswers.answer_eq
    obtain rfl := hsize.symm.trans hanswers.size_eq
    exact ⟨_, rfl⟩
  · obtain ⟨_, e', _, hlaunch, _⟩ := exists_launch hcourse
    rw [← hlaunch.point_eq] at hanswer
    cases hanswer.symm.trans hlaunch.answers.answer_eq
    obtain rfl := hsize.symm.trans hlaunch.answers.size_eq
    exact ⟨_, rfl⟩

/-- Multiplying all residuals and Jacobians of a problem by a matrix with orthonormal columns makes
no difference to a solve: the calls and the records are the same, and so is the fault or the
solution, but for the residuals, which are multiplied by that matrix. -/
theorem minimize_turn (config : Config α) (problem : Problem α n) (q : Mat α k m) (x : Vector α n)
    (hq : q.Orthonormal) (hproblem : problem.Complete m) :
    let original := minimize config problem x
    let turned := minimize config (problem.turn q) x
    turned.calls = original.calls ∧ turned.records = original.records ∧
    (∀ recordTrace fault, original.outcome recordTrace = .error fault →
      turned.outcome recordTrace = .error fault) ∧
    ∀ recordTrace solution, original.outcome recordTrace = .ok solution →
      ∃ f : Vector α m, solution.residuals = f.toList ∧
        turned.outcome recordTrace =
          .ok { solution with residuals := (q.mulVec f).toList } := by
  intro original turned
  have htranslates := hq.translates hproblem config x
  have houtcome := htranslates.outcome
  refine ⟨?_, htranslates.records, ?_, ?_⟩
  · rw [htranslates.calls]
    exact List.map_id original.calls
  · intro recordTrace fault hfault
    rw [houtcome, hfault]
    rfl
  · intro recordTrace solution hsolution
    obtain ⟨f, hf⟩ := hproblem.exists_residuals hsolution
    refine ⟨f, hf, ?_⟩
    rw [houtcome, hsolution, ← q.turnList_toList, ← hf]
    rfl

end Exact

theorem Problem.complete_linear [Scalar α] (a : Mat α m n) (b : Vector α m) :
    (linear a b).Complete m :=
  fun _ x => ⟨_, rfl, (minus (a.mulVec x) b).size_toArray, a, Evaluation.jacobianOf_ofMat _ a⟩

/-- Two residuals that change places and are followed by a zero. The solve makes one step. -/
theorem minimize_turn_padded :
    let config : Config ℝ := { Config.standard with tau := 1, maxIterations := 1 }
    let a : Mat ℝ 2 1 := .ofFn ![![1], ![1]]
    let q : Mat ℝ 3 2 := .ofFn ![![0, 1], ![1, 0], ![0, 0]]
    ∃ solution : Solution ℝ 1,
      (minimize config (.linear a #v[2, 1]) #v[0]).outcome false = .ok solution ∧
      solution.point = #v[3 / 4] ∧ solution.residuals = [-5 / 4, -1 / 4] ∧
      (minimize config ((Problem.linear a #v[2, 1]).turn q) #v[0]).outcome false =
        .ok { solution with residuals := [-1 / 4, -5 / 4, 0] } := by
  intro config a q
  have hq : q.Orthonormal := by
    ext i j
    fin_cases i <;> fin_cases j <;> simp [q, Matrix.mul_apply, Fin.sum_univ_three]
  have hvalid : config.validate 1 = .ok ⟨none, none⟩ := by
    apply Config.validate_of_signs one_ne_zero
    · simp [config]
    · simp [config, Config.standard]
    · simp [config, Config.standard]
    · rfl
  have hmu : Damping.initialMu config.tau a.gram.diagonal.toList = 2 := by
    have hdiagonal : a.gram.diagonal.toList = [2] := by
      norm_num [Mat.diagonal, Vector.toList_ofFn, Mat.entry_gram_self, a, Fin.sum_univ_two]
    rw [hdiagonal, Damping.initialMu_cons]
    norm_num [config]
  have hlarge : Scalar.epsilon ≤ (2 : ℝ) := by
    rw [Scalar.epsilon_eq]
    norm_num
  have hgradient : (a.transposeMulVec (minus (a.mulVec #v[0]) #v[2, 1])).get = ![-3] := by
    rw [Mat.get_transposeMulVec, get_minus_eq_sub, Mat.get_mulVec, get_singleton, get_pair]
    ext i
    fin_cases i
    norm_num [a, Matrix.mulVec, dotProduct, Fin.sum_univ_two]
  have hdamping : (config.damping.vector 2 a.gram).get = fun _ => 2 :=
    funext (DampingStyle.get_vector_identity 2 a.gram)
  have hmove : (a.gram.toMatrix + diagonal (config.damping.vector 2 a.gram).get) *ᵥ
      (#v[3 / 4] : Vector ℝ 1).get = -![-3] := by
    rw [hdamping, get_singleton]
    ext i
    fin_cases i
    norm_num [a, Matrix.mulVec, dotProduct, Mat.entry_gram, Fin.sum_univ_two]
  obtain ⟨solution, hsolution, _, hpoint, hresiduals⟩ :=
    exists_solution_of_one_iteration hvalid rfl (fun hdiagonal => by cases hdiagonal)
      (Damping.start?_eq_some hmu hlarge) hgradient (by simp) hmove rfl
  obtain ⟨_, _, _, hturned⟩ :=
    minimize_turn config _ q #v[0] hq (Problem.complete_linear a #v[2, 1])
  obtain ⟨f, hf, houtcome⟩ := hturned false solution hsolution
  have hend : plus #v[0] #v[3 / 4] = (#v[3 / 4] : Vector ℝ 1) := by
    apply ext_get
    apply congrFun
    rw [get_plus_eq_add, get_singleton, get_singleton]
    norm_num
  have hunturned : minus (a.mulVec #v[3 / 4]) #v[2, 1] = #v[-5 / 4, -1 / 4] := by
    apply ext_get
    apply congrFun
    rw [get_minus_eq_sub, Mat.get_mulVec, get_singleton, get_pair, get_pair]
    ext i
    fin_cases i
    · norm_num [a, Matrix.mulVec, dotProduct]
    · norm_num [a, Matrix.mulVec, dotProduct]
  have hpadded : q.mulVec #v[-5 / 4, -1 / 4] = #v[-1 / 4, -5 / 4, 0] := by
    apply ext_get
    intro i
    rw [Mat.get_mulVec, get_pair]
    fin_cases i <;> simp [q, Matrix.mulVec, dotProduct, Vector.get, Fin.sum_univ_two]
  rw [hend] at hpoint hresiduals
  rw [hunturned] at hresiduals
  obtain rfl := Vector.toList_inj.mp (hf.symm.trans hresiduals)
  rw [hpadded] at houtcome
  exact ⟨solution, hsolution, hpoint, hresiduals, houtcome⟩

end LeastSquares
