import Mathlib
import LeastSquares.Proofs.Clipping
import LeastSquares.Proofs.Permutation
import LeastSquares.Proofs.Stopping
import LeastSquares.Proofs.Translation

/-! # Renamed parameters

The parameters of a problem may be put in another order, and each may be counted from another zero.
If starting point, bounds and the columns of the Jacobians are changed alike, then in exact
arithmetic a solve of the renamed problem is the renamed solve. Nothing that is decided depends on
the order or on the zeros: not the damping, not whether there is a step, not its denominator, and
neither does the largest change of a parameter.
-/

namespace LeastSquares

open Matrix

variable {α : Type} {m n : Nat}

/-- New parameter `i` is the old parameter `order i` plus `shift i`. -/
structure Renaming (α : Type) (n : Nat) where
  order : Equiv.Perm (Fin n)
  shift : Vector α n

namespace Renaming

section Definitions

variable [Scalar α] (ρ : Renaming α n)

def point (x : Vector α n) : Vector α n := plus (permuted ρ.order x) ρ.shift

/-- The point that a renamed point stands for. -/
def source (y : Vector α n) : Vector α n := permuted ρ.order.symm (minus y ρ.shift)

/-- A Jacobian with a column for each parameter is reordered. Other tables stay as they are. -/
def table (t : Table α) : Table α :=
  match t.toMat? t.height n with
  | none => t
  | some a => .ofMat (a.permuteColumns ρ.order)

def evaluation (e : Evaluation α) : Evaluation α := ⟨e.residuals, e.jacobian.map ρ.table⟩

/-- The problem in terms of the new parameters. -/
def problem (problem : Problem α n) : Problem α n :=
  fun i y wantsJacobian => (problem i (ρ.source y) wantsJacobian).map ρ.evaluation

/-- A limit for each new parameter. Where there was none, there is none. -/
def entries (limits : Vector (Option α) n) : Vector (Option α) n :=
  .ofFn fun i => (limits.get (ρ.order i)).map (· + ρ.shift.get i)

/-- One side of bounds, if it has an entry for each parameter. Other sides stay as they are. -/
def side (l : List (Option α)) : List (Option α) :=
  if h : l.toArray.size = n then (ρ.entries ⟨l.toArray, h⟩).toList else l

def config (config : Config α) : Config α :=
  { config with bounds := ⟨ρ.side config.bounds.lower, ρ.side config.bounds.upper⟩ }

def box (box : Box α n) : Box α n := ⟨box.lower.map ρ.entries, box.upper.map ρ.entries⟩

def iterate (it : Iterate α m n) : Iterate α m n :=
  ⟨ρ.point it.point, it.residuals, it.cost, it.gram.permute ρ.order,
    permuted ρ.order it.gradient⟩

/-- Points are renamed, residuals stay. -/
def translation : Translation α n := ⟨ρ.point, id⟩

end Definitions

section Views

variable (ρ : Renaming α n)

theorem shape_table (t : Table α) : (ρ.table t).height = t.height ∧ (ρ.table t).width = t.width := by
  unfold table
  split
  · exact ⟨rfl, rfl⟩
  next a ha => exact ⟨rfl, (Table.shape_of_toMat? ha).2.symm⟩

theorem toMat?_table (t : Table α) (m : Nat) :
    (ρ.table t).toMat? m n = (t.toMat? m n).map fun a => a.permuteColumns ρ.order := by
  cases hmat : t.toMat? m n with
  | none =>
      obtain ⟨hheight, hwidth⟩ := ρ.shape_table t
      rw [Table.toMat?_eq_none_iff] at hmat
      rw [Option.map_none, Table.toMat?_eq_none_iff, hheight, hwidth]
      exact hmat
  | some a =>
      obtain ⟨rfl, _⟩ := Table.shape_of_toMat? hmat
      rw [table, hmat]
      exact Table.toMat?_ofMat _

theorem jacobianOf_evaluation (e : Evaluation α) (m : Nat) :
    (ρ.evaluation e).jacobianOf m n = (e.jacobianOf m n).map fun a => a.permuteColumns ρ.order := by
  obtain ⟨f, jacobian⟩ := e
  cases jacobian with
  | none => rfl
  | some t =>
      have htable := ρ.toMat?_table t m
      have hshape := ρ.shape_table t
      unfold evaluation Evaluation.jacobianOf
      dsimp only [Option.map_some]
      rw [htable, hshape.1, hshape.2]
      cases t.toMat? m n with
      | none => rfl
      | some a => rfl

variable [Scalar α]

theorem get_point (x : Vector α n) (i : Fin n) :
    (ρ.point x).get i = x.get (ρ.order i) + ρ.shift.get i := by
  rw [point, get_plus, get_permuted]

theorem iterate_of (x : Vector α n) (f : Vector α m) (a : Mat α m n) :
    Iterate.of (ρ.point x) f (a.permuteColumns ρ.order) = ρ.iterate (.of x f a) := by
  rw [Iterate.of, a.gram_permuteColumns, a.transposeMulVec_permuteColumns]
  rfl

theorem carries : ρ.translation.Carries (ρ.iterate (m := m)) where
  point_eq _ := rfl
  residuals_eq _ := rfl
  cost_eq _ := rfl

theorem side_toList (limits : Vector (Option α) n) :
    ρ.side limits.toList = (ρ.entries limits).toList := by
  simp [side, Vector.toList]

/-- Limits are read off the renamed side as they are off the side itself. -/
theorem checkedSide_side (hn : n ≠ 0) {which : Side} {l : List (Option α)} {limits : Limits α n}
    (hside : Bounds.checkedSide which n l = .ok limits) :
    Bounds.checkedSide which n (ρ.side l) = .ok (limits.map ρ.entries) := by
  rcases Bounds.checkedSide_cases hside with ⟨rfl, rfl⟩ | ⟨v, rfl, rfl⟩
  · have hlength : ¬([] : List (Option α)).toArray.size = n := hn.symm
    rw [side, dif_neg hlength]
    rfl
  · rw [side_toList]
    exact Bounds.checkedSide_toList which hn _

theorem at_map_entries (limits : Limits α n) (i : Fin n) :
    Limits.at (limits.map ρ.entries) i = (limits.at (ρ.order i)).map (· + ρ.shift.get i) := by
  cases limits with
  | none => rfl
  | some entries => exact get_ofFn ..

end Views

section Exact

variable [ExactScalar α] (ρ : Renaming α n)

theorem source_point (x : Vector α n) : ρ.source (ρ.point x) = x := by
  apply ext_get
  intro i
  rw [source, get_permuted, get_minus, get_point, Equiv.apply_symm_apply, add_sub_cancel_right]

theorem problem_point (p : Problem α n) (i : Nat) (x : Vector α n) (wantsJacobian : Bool) :
    ρ.problem p i (ρ.point x) wantsJacobian = (p i x wantsJacobian).map ρ.evaluation := by
  rw [problem, source_point]

theorem point_plus (x h : Vector α n) :
    plus (ρ.point x) (permuted ρ.order h) = ρ.point (plus x h) := by
  apply ext_get
  intro i
  rw [get_plus, get_point, get_permuted, get_point, get_plus]
  ring

theorem lowered_add (hi : Option α) (x c : α) :
    Box.lowered (hi.map (· + c)) (x + c) = Box.lowered hi x + c := by
  cases hi with
  | none => rfl
  | some hi =>
      simp only [Box.lowered, Option.map_some, add_lt_add_iff_right]
      split
      · rfl
      · rfl

theorem raised_add (lo : Option α) (x c : α) :
    Box.raised (lo.map (· + c)) (x + c) = Box.raised lo x + c := by
  cases lo with
  | none => rfl
  | some lo =>
      simp only [Box.raised, Option.map_some, add_lt_add_iff_right]
      split
      · rfl
      · rfl

/-- Clipping commutes with renaming. -/
theorem clip_point (box : Box α n) (x : Vector α n) :
    (ρ.box box).clip (ρ.point x) = ρ.point (box.clip x) := by
  apply ext_get
  intro i
  rw [Box.get_clip, get_point, get_point, Box.get_clip, Renaming.box, at_map_entries,
    at_map_entries, lowered_add, raised_add]

theorem uncrossed_box {box : Box α n} (hbox : box.Uncrossed) : (ρ.box box).Uncrossed := by
  intro i lo hi hlo hhi
  rw [Renaming.box, at_map_entries] at hlo hhi
  obtain ⟨lo, hlo', rfl⟩ := Option.map_eq_some_iff.mp hlo
  obtain ⟨hi, hhi', rfl⟩ := Option.map_eq_some_iff.mp hhi
  rw [add_lt_add_iff_right]
  exact hbox (ρ.order i) lo hi hlo' hhi'

theorem validate_config {config : Config α} {box : Box α n}
    (hvalid : config.validate n = .ok box) : (ρ.config config).validate n = .ok (ρ.box box) := by
  have hchoices := (config.validate_eq_ok_iff n box).mp hvalid
  obtain ⟨hn, htau, hparameters, hobjective, hbounds⟩ := hchoices
  obtain ⟨hlower, hupper, hcrossing⟩ := Bounds.checked_of_validate hbounds
  rw [Config.validate_eq_ok_iff]
  refine ⟨hn, htau, hparameters, hobjective, Bounds.validate_of_checked ?_ ?_ ?_⟩
  · exact ρ.checkedSide_side hn hlower
  · exact ρ.checkedSide_side hn hupper
  · rw [Box.crossing?_eq_none_iff] at hcrossing ⊢
    exact ρ.uncrossed_box hcrossing

/-- No parameter changes by more or less than before, in whatever order. -/
theorem largestChange_point_lt_iff (hn : n ≠ 0) (old new : Vector α n) (tolerance : α) :
    Tolerances.largestChange (ρ.point old).toList (ρ.point new).toList < tolerance ↔
      Tolerances.largestChange old.toList new.toList < tolerance := by
  rw [Tolerances.largestChange_lt_iff hn, Tolerances.largestChange_lt_iff hn]
  simp only [get_point, add_sub_add_right_eq_sub]
  exact ρ.order.forall_congr_right (q := fun i => |old.get i - new.get i| < tolerance)

theorem verdict_point (hn : n ≠ 0) (t : Tolerances α) (denominator rho oldCost cost : α)
    (old new : Vector α n) :
    t.verdict denominator rho oldCost cost (ρ.point old).toList (ρ.point new).toList =
      t.verdict denominator rho oldCost cost old.toList new.toList := by
  unfold Tolerances.verdict
  simp only [ρ.largestChange_point_lt_iff hn]

theorem step?_iterate {s : State α m n}
    (hgram : s.current.gram.toMatrixᵀ = s.current.gram.toMatrix) (style : DampingStyle) :
    (s.map ρ.iterate).step? style = (s.step? style).map fun step => step.permute ρ.order := by
  have hdamping := style.vector_permute s.damping.mu s.current.gram ρ.order
  rw [State.step?, State.step?, ← Step.damped?_permute hgram, ← hdamping]
  rfl

theorem answersAlike (p : Problem α n) (i : Nat) (x : Vector α n) :
    ρ.translation.AnswersAlike (ρ.iterate (m := m)) x (p i x true)
      (ρ.problem p i (ρ.point x) true) := by
  rw [problem_point]
  cases p i x true with
  | error fault => exact .fault fault
  | ok e =>
      by_cases hsize : e.residuals.size = m
      · have hjacobian' := ρ.jacobianOf_evaluation e m
        cases hjacobian : e.jacobianOf m n with
        | error fault =>
            rw [hjacobian] at hjacobian'
            exact .lacking hsize hsize rfl hjacobian hjacobian'
        | ok a =>
            rw [hjacobian] at hjacobian'
            exact .iterate hsize hsize rfl hjacobian hjacobian' (ρ.iterate_of x _ a)
      · exact .count hsize hsize fun _ => rfl

theorem simulates (hn : n ≠ 0) (p : Problem α n) (config : Config α) (box : Box α n) (m : Nat) :
    ρ.translation.Simulates (ρ.iterate (m := m))
      (fun it => it.gram.toMatrixᵀ = it.gram.toMatrix) (config.setting p box)
      ((ρ.config config).setting (ρ.problem p) (ρ.box box)) where
  carries := ρ.carries
  good_of _ _ jacobian := jacobian.toMatrix_gram_transpose
  step_none s hgram hnone := by
    have hstep := ρ.step?_iterate hgram (config.setting p box).style
    rw [hnone] at hstep
    exact hstep
  step_some s step hgram hsome := by
    have hstep := ρ.step?_iterate hgram (config.setting p box).style
    rw [hsome] at hstep
    refine ⟨step.permute ρ.order, hstep, rfl, ?_⟩
    have hplus : plus (ρ.iterate s.current).point (step.permute ρ.order).move =
        ρ.point (plus s.current.point step.move) := ρ.point_plus s.current.point step.move
    rw [hplus]
    exact ρ.clip_point box _
  answers := ρ.answersAlike p
  verdict := ρ.verdict_point hn _

theorem translates (config : Config α) (p : Problem α n) (x : Vector α n) {box : Box α n}
    (hvalid : config.validate n = .ok box) :
    ρ.translation.Translates (minimize config p x)
      (minimize (ρ.config config) (ρ.problem p) (ρ.point x)) := by
  have hn : n ≠ 0 := ((config.validate_eq_ok_iff n box).mp hvalid).1
  have hvalid' := ρ.validate_config hvalid
  -- A simulation starts from an answer, so a start that is answered with a fault is a case apart.
  cases hanswer : p 0 x true with
  | error fault =>
      have hanswer' : ρ.problem p 0 (ρ.point x) true = .error fault := by
        rw [problem_point, hanswer]
        rfl
      rw [minimize_eq_unusable_iff.mpr ⟨rfl, box, hvalid, Or.inl hanswer⟩,
        minimize_eq_unusable_iff.mpr ⟨rfl, ρ.box box, hvalid', Or.inl hanswer'⟩]
      exact .unusable x fault
  | ok e =>
      refine (ρ.simulates hn p config box e.residuals.size).translates hvalid hvalid' rfl ?_
        hanswer rfl
      intro it
      have hdiagonal : (ρ.iterate it).gram.diagonal = permuted ρ.order it.gram.diagonal :=
        it.gram.diagonal_permute ρ.order
      rw [hdiagonal]
      exact Damping.start?_permuted config.tau ρ.order _

end Exact

end Renaming

/-- Renaming the parameters of a problem commutes with solving it in exact arithmetic. The renamed
bounds fit if the bounds do, the calls are made at the renamed points, and damping and records are
the same throughout. So is the fault or the solution, but for its point, which is renamed. -/
theorem minimize_rename [ExactScalar α] (config : Config α) (problem : Problem α n)
    (ρ : Renaming α n) (x : Vector α n) {box : Box α n} (hvalid : config.validate n = .ok box) :
    let original := minimize config problem x
    let renamed := minimize (ρ.config config) (ρ.problem problem) (ρ.point x)
    (ρ.config config).validate n = .ok (ρ.box box) ∧
    renamed.calls = original.calls.map (fun call => { call with point := ρ.point call.point }) ∧
    renamed.dampings = original.dampings ∧ renamed.records = original.records ∧
    (∀ recordTrace fault, original.outcome recordTrace = .error fault →
      renamed.outcome recordTrace = .error fault) ∧
    ∀ recordTrace solution, original.outcome recordTrace = .ok solution →
      renamed.outcome recordTrace = .ok { solution with point := ρ.point solution.point } := by
  intro original renamed
  have htranslates := ρ.translates config problem x hvalid
  refine ⟨ρ.validate_config hvalid, htranslates.calls, htranslates.dampings, htranslates.records,
    ?_, ?_⟩
  · intro recordTrace fault hfault
    rw [htranslates.outcome, hfault]
    rfl
  · intro recordTrace solution hsolution
    rw [htranslates.outcome, hsolution]
    rfl

/-- Two parameters that change places and are counted from elsewhere, one of them with a lower
limit. The solve makes one step. -/
theorem minimize_rename_swapped :
    let config : Config ℝ :=
      { Config.standard with tau := 1, maxIterations := 1, bounds := ⟨[some 0, none], []⟩ }
    let problem : Problem ℝ 2 := .linear (.ofFn ![![1, 0], ![0, 2]]) #v[3, 4]
    let ρ : Renaming ℝ 2 := ⟨Equiv.swap 0 1, #v[10, 20]⟩
    ∃ solution : Solution ℝ 2,
      (minimize config problem #v[1, 1]).outcome false = .ok solution ∧
      solution.point = #v[7 / 5, 3 / 2] ∧ (ρ.config config).bounds = ⟨[none, some 20], []⟩ ∧
      (minimize (ρ.config config) (ρ.problem problem) #v[11, 21]).outcome false =
        .ok { solution with point := #v[23 / 2, 107 / 5] } := by
  intro config problem ρ
  let a : Mat ℝ 2 2 := .ofFn ![![1, 0], ![0, 2]]
  have hvalid : config.validate 2 = .ok ⟨some #v[some 0, none], none⟩ := by
    apply Config.validate_of_signs two_ne_zero
    · simp [config]
    · simp [config, Config.standard]
    · simp [config, Config.standard]
    · rfl
  have hmu : Damping.initialMu config.tau a.gram.diagonal.toList = 4 := by
    have hdiagonal : a.gram.diagonal.toList = [1, 4] := by
      norm_num [Mat.diagonal, Vector.toList_ofFn, Mat.entry_gram_self, a, Fin.sum_univ_two]
    rw [hdiagonal, Damping.initialMu_cons]
    norm_num [config]
  have hlarge : Scalar.epsilon ≤ (4 : ℝ) := by
    rw [Scalar.epsilon_eq]
    norm_num
  have hgradient : (a.transposeMulVec (minus (a.mulVec #v[1, 1]) #v[3, 4])).get = ![-2, -4] := by
    rw [Mat.get_transposeMulVec, get_minus_eq_sub, Mat.get_mulVec, get_pair, get_pair]
    ext i
    fin_cases i
    · norm_num [a, Matrix.mulVec, dotProduct, Fin.sum_univ_two]
    · norm_num [a, Matrix.mulVec, dotProduct, Fin.sum_univ_two]
  have hdamping : (config.damping.vector 4 a.gram).get = fun _ => 4 :=
    funext (DampingStyle.get_vector_identity 4 a.gram)
  have hmove : (a.gram.toMatrix + diagonal (config.damping.vector 4 a.gram).get) *ᵥ
      (#v[2 / 5, 1 / 2] : Vector ℝ 2).get = -![-2, -4] := by
    rw [hdamping, get_pair]
    ext i
    fin_cases i
    · norm_num [a, Matrix.mulVec, dotProduct, Mat.entry_gram, Fin.sum_univ_two]
    · norm_num [a, Matrix.mulVec, dotProduct, Mat.entry_gram, Fin.sum_univ_two]
  have hend : plus #v[1, 1] #v[2 / 5, 1 / 2] = (#v[7 / 5, 3 / 2] : Vector ℝ 2) := by
    apply ext_get
    apply congrFun
    rw [get_plus_eq_add, get_pair, get_pair, get_pair]
    norm_num
  have hinside : (⟨some #v[some 0, none], none⟩ : Box ℝ 2).clip (plus #v[1, 1] #v[2 / 5, 1 / 2]) =
      plus #v[1, 1] #v[2 / 5, 1 / 2] := by
    rw [hend]
    apply ext_get
    intro i
    rw [Box.get_clip]
    fin_cases i
    · have hnot : ¬(7 / 5 : ℝ) < 0 := by norm_num
      exact if_neg hnot
    · rfl
  obtain ⟨solution, hsolution, _, hpoint, _⟩ :=
    exists_solution_of_one_iteration hvalid rfl (fun hdiagonal => by cases hdiagonal)
      (Damping.start?_eq_some hmu hlarge) hgradient (by simp) hmove hinside
  obtain ⟨_, _, _, _, _, hrenamed⟩ := minimize_rename config problem ρ #v[1, 1] hvalid
  have houtcome := hrenamed false solution hsolution
  have hfrom : ρ.point #v[1, 1] = #v[11, 21] := by
    apply ext_get
    intro i
    rw [ρ.get_point]
    fin_cases i
    · norm_num [ρ, Vector.get]
    · norm_num [ρ, Vector.get]
  have hto : ρ.point #v[7 / 5, 3 / 2] = #v[23 / 2, 107 / 5] := by
    apply ext_get
    intro i
    rw [ρ.get_point, get_pair, get_pair, get_pair]
    fin_cases i
    · norm_num [ρ]
    · norm_num [ρ]
  have hbounds : (ρ.config config).bounds = ⟨[none, some 20], []⟩ := by
    simp [Renaming.config, config, ρ, Renaming.side, Renaming.entries, Vector.get,
      Vector.toList_ofFn]
  rw [hend] at hpoint
  rw [hpoint, hfrom, hto] at houtcome
  exact ⟨solution, hsolution, hpoint, hbounds, houtcome⟩

end LeastSquares
