import Mathlib
import LeastSquares.Jacobian.Forward
import LeastSquares.Proofs.Jacobian.ResidualCounts
import LeastSquares.Proofs.Linear.Matrix

/-! # Jacobians by forward differences

Beside the call at the point itself, each column has one call of its own, at the point moved in one
component. The first call that cannot be used is the last one made. In exact arithmetic a column is
off by its increment times half of a second derivative if the residuals are polynomials of degree
two, so it is exact if they are affine.
-/

namespace LeastSquares

open MvPolynomial (eval pderiv)

variable {α β : Type} {m n : Nat}

namespace Logged

variable {ε : Type} {f : Fin m → Logged ε α β} {note : Fin m → ε}

/-- Computations of one note each, if all of them succeed. -/
theorem tabulate_of_ok {v : Fin m → β} (hlog : ∀ i, (f i).log = [note i])
    (hok : ∀ i, (f i).outcome = .ok (v i)) :
    tabulate m f = ⟨List.ofFn note, .ok (Vector.ofFn v)⟩ := by
  induction m with
  | zero => rfl
  | succ m ih =>
      have hdone := ih (fun i => hlog i.castSucc) fun i => hok i.castSucc
      have hlast : f (Fin.last m) = ⟨[note (Fin.last m)], .ok (v (Fin.last m))⟩ := by
        rw [← hlog, ← hok]
      show andThen _ _ = _
      rw [andThen, hdone, hlast]
      dsimp only
      rw [List.ofFn_succ_last, Vector.ofFn_succ]
      rfl

/-- Of computations of one note each, the first that fails leaves the last note. -/
theorem tabulate_of_error {k : Fin m} {fault : Fault α} (hlog : ∀ i, (f i).log = [note i])
    (hbefore : ∀ i < k, ∃ b, (f i).outcome = .ok b) (hk : (f k).outcome = .error fault) :
    tabulate m f = ⟨(List.ofFn note).take (k + 1), .error fault⟩ := by
  induction m with
  | zero => exact k.elim0
  | succ m ih =>
      show andThen _ _ = _
      rw [andThen, List.ofFn_succ_last]
      cases k using Fin.lastCases with
      | last =>
          choose v hv using fun i : Fin m => hbefore i.castSucc i.castSucc_lt_last
          have hlast : f (Fin.last m) = ⟨[note (Fin.last m)], .error fault⟩ := by
            rw [← hlog, ← hk]
          rw [tabulate_of_ok (fun i => hlog i.castSucc) hv, hlast]
          dsimp only
          rw [List.take_of_length_le (by simp)]
          rfl
      | cast k =>
          have hdone := ih (k := k) (fun i => hlog i.castSucc)
            (fun i hi => hbefore i.castSucc (Fin.castSucc_lt_castSucc_iff.mpr hi)) hk
          rw [hdone]
          dsimp only
          rw [Fin.val_castSucc, List.take_append_of_le_length (by simp)]

end Logged

/-- The residuals are those of one function of the point, whatever the number of the call. -/
def Problem.Evaluates (problem : Problem α n) (f : Vector α n → Vector α m) : Prop :=
  ∀ k y, ∃ e, problem k y false = .ok e ∧ e.residuals = (f y).toArray

namespace Forward

section Calls

variable [Scalar α] {problem : Problem α n} {x : Vector α n} {epsilon : α}

/-- The point of each call: `x` itself, and then `x` moved in one component after the other. -/
def points (x : Vector α n) (epsilon : α) : List (Vector α n) :=
  x :: List.ofFn fun j => moved x j (increment epsilon (x.get j))

/-- The call for one column, against `m` residuals at the point itself. -/
def column (problem : Problem α n) (x : Vector α n) (epsilon : α) (base : Vector α m) (j : Fin n) :
    Run α n (Vector α m) := do
  let h := increment epsilon (x.get j)
  let e ← Run.ask problem (j + 1) (moved x j h) false
  Logged.settle (quotients base e h)

/-- Something is wrong with call `k`: it is answered with a fault, or with another number of
residuals than the first call. -/
inductive Trouble (problem : Problem α n) (x : Vector α n) (epsilon : α) (k : Nat) : Fault α → Prop
  | reported {p : Vector α n} {fault : Fault α} (hp : (points x epsilon)[k]? = some p)
      (hanswer : problem k p false = .error fault) : Trouble problem x epsilon k fault
  | count {p : Vector α n} (base e : Evaluation α) (hp : (points x epsilon)[k]? = some p)
      (hbase : problem 0 x false = .ok base) (hanswer : problem k p false = .ok e)
      (hcount : e.residuals.size ≠ base.residuals.size) :
      Trouble problem x epsilon k (.quotientCount base.residuals.size e.residuals.size)

/-- Nothing was wrong before call `k`, and now something is. -/
structure FirstTrouble (problem : Problem α n) (x : Vector α n) (epsilon : α) (k : Nat)
    (fault : Fault α) : Prop where
  trouble : Trouble problem x epsilon k fault
  first : ∀ i < k, ∀ fault', ¬Trouble problem x epsilon i fault'

/-- All calls are answered with the same number of residuals. -/
structure Answered (problem : Problem α n) (x : Vector α n) (epsilon : α) (base : Vector α m)
    (ends : Fin n → Vector α m) : Prop where
  at_start : ∃ e, problem 0 x false = .ok e ∧ e.residuals = base.toArray
  at_end : ∀ j : Fin n, ∃ e, problem (j + 1) (moved x j (increment epsilon (x.get j))) false = .ok e ∧
    e.residuals = (ends j).toArray

/-- The difference quotients of all components. -/
def differences (x : Vector α n) (epsilon : α) (base : Vector α m) (ends : Fin n → Vector α m) :
    Mat α m n :=
  .ofFn fun i j => ((ends j).get i - base.get i) / increment epsilon (x.get j)

theorem length_points (x : Vector α n) (epsilon : α) : (points x epsilon).length = n + 1 := by
  simp [points]

theorem points_succ (x : Vector α n) (epsilon : α) (j : Fin n) :
    (points x epsilon)[j.val + 1]? = some (moved x j (increment epsilon (x.get j))) := by
  simp [points]

theorem quotients_of_size_eq {base after : Vector α m} {e : Evaluation α}
    (hsize : e.residuals = after.toArray) (h : α) :
    quotients base e h = .ok (Vector.ofFn fun i => (after.get i - base.get i) / h) := by
  obtain ⟨_, _⟩ := e
  obtain ⟨_, rfl⟩ := after
  cases hsize
  rw [quotients, dif_pos rfl]
  apply congrArg Except.ok
  apply ext_get
  intro i
  rw [get_map, get_minus, get_ofFn]

theorem calls_column (base : Vector α m) (j : Fin n) :
    (column problem x epsilon base j).calls =
      [⟨false, moved x j (increment epsilon (x.get j))⟩] := by
  unfold column
  dsimp only
  cases hanswer : problem (j + 1) (moved x j (increment epsilon (x.get j))) false with
  | error fault => rw [Run.ask_bind_of_error hanswer]
  | ok e =>
      rw [Run.ask_bind_of_ok hanswer]
      rfl

theorem outcome_column_of_ok {base : Vector α m} {j : Fin n} {e : Evaluation α}
    (hanswer : problem (j + 1) (moved x j (increment epsilon (x.get j))) false = .ok e) :
    (column problem x epsilon base j).outcome =
      quotients base e (increment epsilon (x.get j)) := by
  unfold column
  dsimp only
  rw [Run.ask_bind_of_ok hanswer]
  rfl

theorem outcome_column_of_error {base : Vector α m} {j : Fin n} {fault : Fault α}
    (hanswer : problem (j + 1) (moved x j (increment epsilon (x.get j))) false =
      .error fault) :
    (column problem x epsilon base j).outcome = .error fault := by
  unfold column
  dsimp only
  rw [Run.ask_bind_of_error hanswer]

theorem jacobian_eq {base : Evaluation α} (hbase : problem 0 x false = .ok base) :
    let columns := Logged.tabulate n (column problem x epsilon base.vector)
    jacobian problem x epsilon =
      ⟨⟨false, x⟩ :: columns.log, columns.outcome.map fun c => .ofMat (.ofColumns c)⟩ := by
  intro columns
  unfold jacobian
  rw [Run.ask_bind_of_ok hbase]
  show Logged.mk (_ :: (Logged.andThen columns _).log) (Logged.andThen columns _).outcome = _
  unfold Logged.andThen
  cases columns.outcome with
  | error fault => rfl
  | ok c =>
      dsimp only
      rw [Logged.mk.injEq]
      exact ⟨congrArg _ (List.append_nil _), rfl⟩

theorem ofColumns_quotients (base : Vector α m) (ends : Fin n → Vector α m) :
    Mat.ofColumns (Vector.ofFn fun j => Vector.ofFn fun i =>
      ((ends j).get i - base.get i) / increment epsilon (x.get j)) =
        differences x epsilon base ends := by
  apply Mat.ext_entry
  intro i j
  rw [Mat.ofColumns, Mat.entry_ofFn, get_ofFn, get_ofFn, differences, Mat.entry_ofFn]

/-- If all calls are answered with the same number of residuals, the result is made of their
difference quotients. -/
theorem jacobian_of_answered {base : Vector α m} {ends : Fin n → Vector α m}
    (hanswered : Answered problem x epsilon base ends) :
    jacobian problem x epsilon =
      ⟨(points x epsilon).map (Call.mk false),
        .ok (.ofMat (differences x epsilon base ends))⟩ := by
  obtain ⟨⟨residuals, table⟩, hbase, hresiduals⟩ := hanswered.at_start
  obtain ⟨_, rfl⟩ := base
  cases hresiduals
  choose e hends hsizes using hanswered.at_end
  rw [jacobian_eq hbase, Logged.tabulate_of_ok (calls_column _)
    fun j => (outcome_column_of_ok (hends j)).trans (quotients_of_size_eq (hsizes j) _)]
  rw [Logged.mk.injEq]
  constructor
  · rw [points, List.map_cons, List.map_ofFn]
    rfl
  · exact congrArg (fun a => Except.ok (Table.ofMat a)) (ofColumns_quotients ..)

/-- There are as many calls as components, beside the first. -/
theorem Trouble.le {k : Nat} {fault : Fault α} (htrouble : Trouble problem x epsilon k fault) :
    k ≤ n := by
  have hlength : k < (points x epsilon).length := by
    cases htrouble with
    | reported hp _ => exact (List.getElem?_eq_some_iff.mp hp).1
    | count _ _ hp _ _ _ => exact (List.getElem?_eq_some_iff.mp hp).1
  rw [length_points] at hlength
  exact Nat.le_of_lt_succ hlength

theorem FirstTrouble.exists_base {k : Nat} {fault : Fault α}
    (htrouble : FirstTrouble problem x epsilon (k + 1) fault) :
    ∃ base, problem 0 x false = .ok base := by
  cases hanswer : problem 0 x false with
  | error fault' => exact absurd (.reported rfl hanswer) (htrouble.first 0 k.succ_pos fault')
  | ok base => exact ⟨base, rfl⟩

/-- A column without trouble. -/
theorem exists_outcome_column {base : Evaluation α} (hbase : problem 0 x false = .ok base)
    {j : Fin n} (hnone : ∀ fault, ¬Trouble problem x epsilon (j + 1) fault) :
    ∃ c, (column problem x epsilon base.vector j).outcome = .ok c := by
  cases hanswer : problem (j + 1) (moved x j (increment epsilon (x.get j))) false with
  | error fault => exact absurd (.reported (points_succ x epsilon j) hanswer) (hnone fault)
  | ok e =>
      by_cases hsize : e.residuals.size = base.residuals.size
      · rw [outcome_column_of_ok hanswer, quotients, dif_pos hsize]
        exact ⟨_, rfl⟩
      · exact absurd (.count base e (points_succ x epsilon j) hbase hanswer hsize) (hnone _)

theorem outcome_column_of_trouble {base : Evaluation α} (hbase : problem 0 x false = .ok base)
    {j : Fin n} {fault : Fault α} (htrouble : Trouble problem x epsilon (j + 1) fault) :
    (column problem x epsilon base.vector j).outcome = .error fault := by
  cases htrouble with
  | reported hp hanswer =>
      rw [points_succ] at hp
      cases hp
      exact outcome_column_of_error hanswer
  | count base' e hp hbase' hanswer hcount =>
      rw [points_succ] at hp
      cases hp
      obtain rfl := Except.ok.inj (hbase.symm.trans hbase')
      rw [outcome_column_of_ok hanswer, quotients, dif_neg hcount]

/-- The first call that something is wrong with is the last, and its fault is what the run ends
with. -/
theorem jacobian_of_firstTrouble {k : Nat} {fault : Fault α}
    (htrouble : FirstTrouble problem x epsilon k fault) :
    jacobian problem x epsilon =
      ⟨((points x epsilon).take (k + 1)).map (Call.mk false), .error fault⟩ := by
  cases k with
  | zero =>
      cases htrouble.trouble with
      | reported hp hanswer =>
          cases hp
          unfold jacobian
          rw [Run.ask_bind_of_error hanswer]
          rfl
      | count base e hp hbase hanswer hcount =>
          cases hp
          exact absurd (congrArg (·.residuals.size) (Except.ok.inj (hanswer.symm.trans hbase))) hcount
  | succ k =>
      have hk : k < n := htrouble.trouble.le
      obtain ⟨base, hbase⟩ := htrouble.exists_base
      have hbefore : ∀ i < (⟨k, hk⟩ : Fin n), ∃ c,
          (column problem x epsilon base.vector i).outcome = .ok c := by
        intro i hi
        exact exists_outcome_column hbase (htrouble.first _ (Nat.succ_lt_succ hi))
      rw [jacobian_eq hbase, Logged.tabulate_of_error (calls_column _) hbefore
        (outcome_column_of_trouble hbase htrouble.trouble), Logged.mk.injEq]
      refine ⟨?_, rfl⟩
      rw [points, List.take_succ_cons, List.map_cons, List.map_take, List.map_ofFn]
      rfl

/-- Unless something is wrong with a call, all of them are answered alike. -/
theorem exists_answered (hnone : ∀ k fault, ¬Trouble problem x epsilon k fault) :
    ∃ (m : Nat) (base : Vector α m) (ends : Fin n → Vector α m),
      Answered problem x epsilon base ends := by
  cases hstart : problem 0 x false with
  | error fault => exact absurd (.reported rfl hstart) (hnone 0 fault)
  | ok base =>
      have hends : ∀ j : Fin n, ∃ (v : Vector α base.residuals.size) (e : Evaluation α),
          problem (j + 1) (moved x j (increment epsilon (x.get j))) false = .ok e ∧
            e.residuals = v.toArray := by
        intro j
        cases hanswer : problem (j + 1) (moved x j (increment epsilon (x.get j))) false with
        | error fault =>
            exact absurd (.reported (points_succ x epsilon j) hanswer) (hnone (j + 1) fault)
        | ok e =>
            by_cases hsize : e.residuals.size = base.residuals.size
            · exact ⟨⟨e.residuals, hsize⟩, e, rfl, rfl⟩
            · exact absurd (.count base e (points_succ x epsilon j) hstart hanswer hsize) (hnone _ _)
      choose ends hends using hends
      exact ⟨_, base.vector, ends, ⟨base, hstart, rfl⟩, hends⟩

/-- Either something is wrong with a call, and then with a first one, or all are answered alike. -/
theorem exists_firstTrouble_or_answered (problem : Problem α n) (x : Vector α n) (epsilon : α) :
    (∃ k fault, FirstTrouble problem x epsilon k fault) ∨
      ∃ (m : Nat) (base : Vector α m) (ends : Fin n → Vector α m),
        Answered problem x epsilon base ends := by
  classical
  by_cases hsome : ∃ k, ∃ fault, Trouble problem x epsilon k fault
  · obtain ⟨fault, hfault⟩ := Nat.find_spec hsome
    exact Or.inl ⟨_, fault, hfault, fun i hi fault' h => Nat.find_min hsome hi ⟨fault', h⟩⟩
  · exact Or.inr (exists_answered fun k fault h => hsome ⟨k, fault, h⟩)

/-- A result has been made from calls that were all answered alike. -/
theorem exists_answered_of_ok {t : Table α} (hok : (jacobian problem x epsilon).outcome = .ok t) :
    ∃ (m : Nat) (base : Vector α m) (ends : Fin n → Vector α m),
      Answered problem x epsilon base ends ∧ t = .ofMat (differences x epsilon base ends) := by
  obtain ⟨k, fault, htrouble⟩ | ⟨m, base, ends, hanswered⟩ :=
    exists_firstTrouble_or_answered problem x epsilon
  · rw [jacobian_of_firstTrouble htrouble] at hok
    cases hok
  · rw [jacobian_of_answered hanswered] at hok
    exact ⟨m, base, ends, hanswered, (Except.ok.inj hok).symm⟩

theorem outcome_eq_error_iff {fault : Fault α} :
    (jacobian problem x epsilon).outcome = .error fault ↔
      ∃ k, FirstTrouble problem x epsilon k fault := by
  constructor
  · intro hfailed
    obtain ⟨k, fault', htrouble⟩ | ⟨m, base, ends, hanswered⟩ :=
      exists_firstTrouble_or_answered problem x epsilon
    · rw [jacobian_of_firstTrouble htrouble] at hfailed
      cases hfailed
      exact ⟨k, htrouble⟩
    · rw [jacobian_of_answered hanswered] at hfailed
      cases hfailed
  · rintro ⟨k, htrouble⟩
    rw [jacobian_of_firstTrouble htrouble]

theorem FirstTrouble.length_calls {k : Nat} {fault : Fault α}
    (htrouble : FirstTrouble problem x epsilon k fault) :
    (jacobian problem x epsilon).calls.length = k + 1 := by
  have hk := htrouble.trouble.le
  rw [jacobian_of_firstTrouble htrouble, List.length_map, List.length_take, length_points]
  omega

/-- Two problems that answer the first call alike and the call for a column have that column in
common. -/
theorem column_congr {problem' : Problem α n} {m m' : Nat} {base : Vector α m}
    {base' : Vector α m'} {ends : Fin n → Vector α m} {ends' : Fin n → Vector α m'} {j : Fin n}
    (hanswered : Answered problem x epsilon base ends)
    (hanswered' : Answered problem' x epsilon base' ends')
    (hstart : problem' 0 x false = problem 0 x false)
    (hend : problem' (j + 1) (moved x j (increment epsilon (x.get j))) false =
      problem (j + 1) (moved x j (increment epsilon (x.get j))) false) :
    ∃ hm : m' = m, (differences x epsilon base ends).column j =
      ((differences x epsilon base' ends').column j).cast hm := by
  obtain ⟨e, he, hbase⟩ := hanswered.at_start
  obtain ⟨e', he', hbase'⟩ := hanswered'.at_start
  obtain rfl := Except.ok.inj (he'.symm.trans (hstart.trans he))
  obtain ⟨last, hlast, hends⟩ := hanswered.at_end j
  obtain ⟨last', hlast', hends'⟩ := hanswered'.at_end j
  obtain rfl := Except.ok.inj (hlast'.symm.trans (hend.trans hlast))
  have hm : m' = m := by
    rw [← base.size_toArray, ← base'.size_toArray, ← hbase, ← hbase']
  subst hm
  have hbases : base' = base := Vector.toArray_inj.mp (hbase'.symm.trans hbase)
  have hlasts : ends' j = ends j := Vector.toArray_inj.mp (hends'.symm.trans hends)
  refine ⟨rfl, ?_⟩
  apply ext_get
  intro i
  rw [Vector.cast_rfl, Mat.get_column, Mat.get_column, differences, differences, Mat.entry_ofFn,
    Mat.entry_ofFn, hbases, hlasts]

end Calls

section Exact

variable [ExactScalar α] {problem : Problem α n} {x : Vector α n} {epsilon : α}

theorem get_moved (x : Vector α n) (j i : Fin n) (h : α) :
    (moved x j h).get i = if i = j then x.get i + h else x.get i :=
  get_ofFn ..

theorem increment_pos (hepsilon : 0 < epsilon) (a : α) : 0 < increment epsilon a := by
  unfold increment
  split
  next hlarge => exact mul_pos (hepsilon.trans hlarge) hepsilon
  · exact hepsilon

/-! ### Polynomials of degree two -/

/-- A monomial with the power of one variable apart from the others. -/
theorem eval_monomial_eq (y : Fin n → α) (s : Fin n →₀ ℕ) (a : α) (j : Fin n) :
    eval y (.monomial s a) = a * (y j ^ s j * ∏ i ∈ Finset.univ.erase j, y i ^ s i) := by
  rw [MvPolynomial.eval_monomial, Finsupp.prod_fintype _ _ fun i => pow_zero _,
    Finset.mul_prod_erase _ (fun i => y i ^ s i) (Finset.mem_univ j)]

theorem prod_erase_single (y : Fin n → α) (s : Fin n →₀ ℕ) (j : Fin n) :
    ∏ i ∈ Finset.univ.erase j, y i ^ (s - Finsupp.single j 1 : Fin n →₀ ℕ) i =
      ∏ i ∈ Finset.univ.erase j, y i ^ s i := by
  refine Finset.prod_congr rfl fun i hi => ?_
  simp [(Finset.ne_of_mem_erase hi).symm]

/-- Moving one variable, a monomial of degree at most two in it changes by its derivatives. -/
theorem eval_moved_monomial (x : Vector α n) (j : Fin n) (h : α) {s : Fin n →₀ ℕ} (hs : s j ≤ 2)
    (a : α) :
    eval (moved x j h).get (.monomial s a) = eval x.get (.monomial s a) +
      h * eval x.get (pderiv j (.monomial s a)) +
        h ^ 2 * (eval x.get (pderiv j (pderiv j (.monomial s a))) / 2) := by
  have hothers : ∏ i ∈ Finset.univ.erase j, (moved x j h).get i ^ s i =
      ∏ i ∈ Finset.univ.erase j, x.get i ^ s i := by
    refine Finset.prod_congr rfl fun i hi => ?_
    rw [get_moved, if_neg (Finset.ne_of_mem_erase hi)]
  have hself : (moved x j h).get j = x.get j + h := by
    rw [get_moved, if_pos rfl]
  simp only [MvPolynomial.pderiv_monomial, eval_monomial_eq _ _ _ j, prod_erase_single, hothers,
    hself]
  simp only [Finsupp.tsub_apply, Finsupp.single_eq_same]
  generalize ∏ i ∈ Finset.univ.erase j, x.get i ^ s i = others
  generalize s j = k at hs
  interval_cases k
  · simp
  · simp
    ring
  · norm_num
    ring

theorem eval_moved (x : Vector α n) (j : Fin n) (h : α) {p : MvPolynomial (Fin n) α}
    (hp : p.totalDegree ≤ 2) :
    eval (moved x j h).get p =
      eval x.get p + h * eval x.get (pderiv j p) +
        h ^ 2 * (eval x.get (pderiv j (pderiv j p)) / 2) := by
  have hdegree : ∀ s ∈ p.support, s j ≤ 2 :=
    MvPolynomial.degreeOf_le_iff.mp ((MvPolynomial.degreeOf_le_totalDegree p j).trans hp)
  have hsum := Finset.sum_induction (fun s => MvPolynomial.monomial s (p.coeff s))
    (fun q => eval (moved x j h).get q = eval x.get q + h * eval x.get (pderiv j q) +
      h ^ 2 * (eval x.get (pderiv j (pderiv j q)) / 2))
    (fun q r hq hr => by simp only [map_add, hq, hr]; ring) (by simp)
    (fun s hs => eval_moved_monomial x j h (hdegree s hs) _)
  rwa [p.support_sum_monomial_coeff] at hsum

/-! ### The result -/

theorem Answered.of_evaluates {f : Vector α n → Vector α m} (hf : problem.Evaluates f)
    (x : Vector α n) (epsilon : α) :
    Answered problem x epsilon (f x) fun j => f (moved x j (increment epsilon (x.get j))) :=
  ⟨hf 0 x, fun j => hf (j + 1) _⟩

theorem differences_of_polynomials (hepsilon : 0 < epsilon) (x : Vector α n)
    {p : Fin m → MvPolynomial (Fin n) α} (hp : ∀ i, (p i).totalDegree ≤ 2) :
    differences x epsilon (Vector.ofFn fun i => eval x.get (p i))
        (fun j => Vector.ofFn fun i => eval (moved x j (increment epsilon (x.get j))).get (p i)) =
      .ofFn fun i j => eval x.get (pderiv j (p i)) +
        increment epsilon (x.get j) * (eval x.get (pderiv j (pderiv j (p i))) / 2) := by
  apply Mat.ext_entry
  intro i j
  have hincrement := (increment_pos hepsilon (x.get j)).ne'
  rw [differences, Mat.entry_ofFn, Mat.entry_ofFn, get_ofFn, get_ofFn, eval_moved x j _ (hp i)]
  field_simp
  ring

theorem differences_of_affine (hepsilon : 0 < epsilon) (x : Vector α n) (a : Mat α m n)
    (b : Vector α m) :
    differences x epsilon (minus (a.mulVec x) b)
      (fun j => minus (a.mulVec (moved x j (increment epsilon (x.get j)))) b) = a := by
  apply Mat.ext_entry
  intro i j
  have hincrement := (increment_pos hepsilon (x.get j)).ne'
  have hmoved : (moved x j (increment epsilon (x.get j))).get =
      x.get + Pi.single j (increment epsilon (x.get j)) := by
    funext k
    rw [get_moved, Pi.add_apply, Pi.single_apply]
    split
    · rfl
    · rw [add_zero]
  rw [differences, Mat.entry_ofFn, get_minus, get_minus, Mat.get_mulVec, Mat.get_mulVec, hmoved,
    Matrix.mulVec_add, Matrix.mulVec_single, Pi.add_apply]
  simp [hincrement]

/-- The Jacobian by forward differences in exact arithmetic. Its calls go to the point itself and to
one further point for each column, which lies a positive increment ahead in that component, and a
column depends on no other calls than the first and its own. An entry exceeds the partial derivative
by half of the increment times the second one if the residuals are polynomials of degree two, and an
affine problem gives its matrix. The first call that is answered with a fault, or with another number
of residuals than the call at the point itself, is the last one, and the run ends with that fault or
with a mismatch. -/
theorem jacobian_by_differences (problem : Problem α n) (x : Vector α n) {epsilon : α}
    (hepsilon : 0 < epsilon) :
    let run := jacobian problem x epsilon
    let h := fun j => increment epsilon (x.get j)
    (∀ j, 0 < h j ∧ (moved x j (h j)).get j = x.get j + h j ∧
      ∀ i ≠ j, (moved x j (h j)).get i = x.get i) ∧
    (∀ t, run.outcome = .ok t →
      run.calls = (points x epsilon).map (Call.mk false) ∧ run.calls.length = n + 1 ∧
      ∃ (m : Nat) (base : Vector α m) (ends : Fin n → Vector α m),
        Answered problem x epsilon base ends ∧ t = .ofMat (differences x epsilon base ends)) ∧
    (∀ (problem' : Problem α n) t t' (j : Fin n), run.outcome = .ok t →
      (jacobian problem' x epsilon).outcome = .ok t' →
      problem' 0 x false = problem 0 x false →
      problem' (j + 1) (moved x j (h j)) false = problem (j + 1) (moved x j (h j)) false →
      ∃ (m : Nat) (a a' : Mat α m n), t = .ofMat a ∧ t' = .ofMat a' ∧ a'.column j = a.column j) ∧
    (∀ (m : Nat) (p : Fin m → MvPolynomial (Fin n) α), (∀ i, (p i).totalDegree ≤ 2) →
      problem.Evaluates (fun y => Vector.ofFn fun i => eval y.get (p i)) →
      run.outcome = .ok (.ofMat (.ofFn fun i j =>
        eval x.get (pderiv j (p i)) + h j * (eval x.get (pderiv j (pderiv j (p i))) / 2)))) ∧
    (∀ (m : Nat) (a : Mat α m n) (b : Vector α m),
      problem.Evaluates (fun y => minus (a.mulVec y) b) → run.outcome = .ok (.ofMat a)) ∧
    (∀ fault, run.outcome = .error fault ↔ ∃ k, FirstTrouble problem x epsilon k fault) ∧
    (∀ k fault, FirstTrouble problem x epsilon k fault →
      run.calls = ((points x epsilon).take (k + 1)).map (Call.mk false) ∧
      run.calls.length = k + 1) ∧
    ∀ expected found, (Fault.quotientCount expected found : Fault α).kind = .dimension := by
  intro run h
  refine ⟨?_, ?_, ?_, ?_, ?_, fun fault => outcome_eq_error_iff, ?_, fun _ _ => rfl⟩
  · intro j
    refine ⟨increment_pos hepsilon _, ?_, fun i hi => ?_⟩
    · rw [get_moved, if_pos rfl]
    · rw [get_moved, if_neg hi]
  · intro t hok
    obtain ⟨m, base, ends, hanswered, rfl⟩ := exists_answered_of_ok hok
    have hcalls : run.calls = (points x epsilon).map (Call.mk false) :=
      congrArg Logged.log (jacobian_of_answered hanswered)
    refine ⟨hcalls, ?_, m, base, ends, hanswered, rfl⟩
    rw [hcalls, List.length_map, length_points]
  · intro problem' t t' j hok hok' hstart hend
    obtain ⟨m, base, ends, hanswered, rfl⟩ := exists_answered_of_ok hok
    obtain ⟨m', base', ends', hanswered', rfl⟩ := exists_answered_of_ok hok'
    obtain ⟨rfl, hcolumn⟩ := column_congr hanswered hanswered' hstart hend
    exact ⟨m', _, _, rfl, rfl, hcolumn.symm⟩
  · intro m p hp hevaluates
    rw [← differences_of_polynomials hepsilon x hp]
    exact congrArg Logged.outcome (jacobian_of_answered (.of_evaluates hevaluates x epsilon))
  · intro m a b hevaluates
    rw [← differences_of_affine hepsilon x a b]
    exact congrArg Logged.outcome (jacobian_of_answered (.of_evaluates hevaluates x epsilon))
  · intro k fault htrouble
    exact ⟨congrArg Logged.log (jacobian_of_firstTrouble htrouble), htrouble.length_calls⟩

/-- Where `x ^ 2 + x y` is differentiated the second increment is too small to be relative. A problem
that answers one residual more in its second call is not asked for a third time. -/
theorem jacobian_by_differences_of_quadratic :
    let x : Vector ℝ 2 := #v[3, 1 / 4]
    let quadratic : Problem ℝ 2 := fun _ y _ => .ok ⟨#[y.get 0 ^ 2 + y.get 0 * y.get 1], none⟩
    let growing : Problem ℝ 2 := fun k _ _ => .ok ⟨Array.replicate (k + 1) 0, none⟩
    (0 : ℝ) < 1 / 2 ∧
      (jacobian quadratic x (1 / 2)).outcome = .ok (.ofMat (.ofFn ![![31 / 4, 3]])) ∧
      (jacobian growing x (1 / 2)).outcome = .error (.quotientCount 1 2) ∧
      (jacobian growing x (1 / 2)).calls.length = 2 := by
  intro x quadratic growing
  have hhalf : (0 : ℝ) < 1 / 2 := by norm_num
  refine ⟨hhalf, ?_, ?_⟩
  · let p : Fin 1 → MvPolynomial (Fin 2) ℝ := fun _ => .X 0 * .X 0 + .X 0 * .X 1
    have hproduct : ∀ i j : Fin 2, (.X i * .X j : MvPolynomial (Fin 2) ℝ).totalDegree ≤ 2 := by
      intro i j
      refine (MvPolynomial.totalDegree_mul _ _).trans ?_
      rw [MvPolynomial.totalDegree_X, MvPolynomial.totalDegree_X]
    have hp : ∀ i, (p i).totalDegree ≤ 2 := fun _ =>
      (MvPolynomial.totalDegree_add _ _).trans (max_le (hproduct 0 0) (hproduct 0 1))
    have hevaluates : quadratic.Evaluates fun y => Vector.ofFn fun i => eval y.get (p i) := by
      intro k y
      refine ⟨_, rfl, ?_⟩
      simp [p, sq, Array.ofFn_succ]
    have hfirst : increment (1 / 2) 3 = (3 / 2 : ℝ) := by
      show (if (1 / 2 : ℝ) < |3| then |3| * (1 / 2) else 1 / 2) = 3 / 2
      norm_num
    have hx : x.get 0 = 3 ∧ x.get 1 = 1 / 4 := ⟨rfl, rfl⟩
    obtain ⟨_, _, _, hquadratic, _⟩ := jacobian_by_differences quadratic x hhalf
    rw [hquadratic 1 p hp hevaluates]
    congr 2
    apply Mat.ext_entry
    intro i j
    rw [Mat.entry_ofFn, Mat.entry_ofFn]
    fin_cases i
    fin_cases j
    · norm_num [p, hfirst, hx]
    · simp [p, hx]
  · have htrouble : FirstTrouble growing x (1 / 2) 1 (.quotientCount 1 2) := by
      refine ⟨.count ⟨Array.replicate 1 0, none⟩ ⟨Array.replicate 2 0, none⟩ (points_succ x _ 0) rfl
        rfl (by simp), ?_⟩
      intro i hi fault hearlier
      obtain rfl : i = 0 := by omega
      cases hearlier with
      | reported _ hanswer => cases hanswer
      | count base e _ hbase hanswer hcount => exact hcount (by cases hbase; cases hanswer; rfl)
    obtain ⟨_, _, _, _, _, herror, hcalls, _⟩ := jacobian_by_differences growing x hhalf
    exact ⟨(herror _).mpr ⟨1, htrouble⟩, (hcalls 1 _ htrouble).2⟩

end Exact

end Forward

end LeastSquares
