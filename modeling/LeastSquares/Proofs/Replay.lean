import Mathlib
import LeastSquares.Proofs.Counting
import LeastSquares.Proofs.LinearDescent
import LeastSquares.Proofs.Prefix

/-! # Replaying the damping

A trace tells of each attempt whether it was accepted and with which gain ratio, and that is all
that the damping depends on. So the damping of a solve can be replayed from its trace, record by
record, whatever the arithmetic. In exact arithmetic the replay shows that the damping factor stays
positive. The one to start with may lie below the floor; from the first acceptance on no factor
does, since a rejection only raises it.
-/

namespace LeastSquares

variable {α : Type} {m n : Nat}

namespace Damping

section Replay

variable [Scalar α]

/-- The damping after the attempt that a record tells of. -/
def follow (d : Damping α) (r : Record α) : Damping α :=
  if r.accepted then d.accept r.rho else d.reject

/-- The damping after all attempts that some records tell of. -/
def replay (d : Damping α) (records : List (Record α)) : Damping α := records.foldl follow d

/-- The growth factor after so many rejections in a row. -/
def growth : (rejections : Nat) → α
  | 0 => Scalar.two
  | k + 1 => growth k * Scalar.two

@[simp] theorem replay_nil (d : Damping α) : d.replay [] = d := rfl

@[simp] theorem replay_cons (d : Damping α) (r : Record α) (records : List (Record α)) :
    d.replay (r :: records) = (d.follow r).replay records :=
  rfl

theorem replay_take_succ (d : Damping α) {records : List (Record α)} {k : Nat} {r : Record α}
    (hr : records[k]? = some r) :
    d.replay (records.take (k + 1)) = (d.replay (records.take k)).follow r := by
  rw [replay, List.take_add_one, hr, List.foldl_append]
  rfl

/-- Records that tell the decisions right replay what their gain ratios do. -/
theorem replay_eq_after (d : Damping α) {records : List (Record α)}
    (hdecided : ∀ r ∈ records, r.accepted = decide (Scalar.zero < r.rho)) :
    d.replay records = d.after (records.map Record.rho) := by
  induction records generalizing d with
  | nil => rfl
  | cons r records ih =>
      obtain ⟨hr, hrest⟩ := List.forall_mem_cons.mp hdecided
      have hfollow : d.follow r = d.update r.rho := by
        simp [follow, update, hr]
      rw [replay_cons, ih _ hrest, hfollow]
      rfl

@[simp] theorem floor_follow (d : Damping α) (r : Record α) : (d.follow r).floor = d.floor := by
  unfold follow
  split
  · rfl
  · rfl

@[simp] theorem floor_replay (d : Damping α) (records : List (Record α)) :
    (d.replay records).floor = d.floor := by
  induction records generalizing d with
  | nil => rfl
  | cons r records ih => rw [replay_cons, ih, floor_follow]

theorem nu_of_start? {tau : α} {diagonal : List α} {d : Damping α}
    (hstart : start? tau diagonal = some d) : d.nu = Scalar.two := by
  unfold start? at hstart
  dsimp only at hstart
  split at hstart
  · cases hstart
  · cases hstart
    rfl

/-- The growth factor was doubled by each rejection since the last acceptance, and by no other. -/
theorem exists_growth {d : Damping α} (hd : d.nu = Scalar.two) (records : List (Record α)) {k : Nat}
    (hk : k ≤ records.length) :
    ∃ j, LastAccepted (records.map Record.accepted) k j ∧
      (d.replay (records.take k)).nu = growth (k - j) := by
  induction k with
  | zero => exact ⟨0, .zero _, hd⟩
  | succ k ih =>
      obtain ⟨j, hlast, hnu⟩ := ih (by omega)
      have hr := List.getElem?_eq_getElem (l := records) (i := k) (by omega)
      have hdecision : (records.map Record.accepted)[k]? = some records[k].accepted := by
        rw [List.getElem?_map, hr]
        rfl
      rw [d.replay_take_succ hr]
      unfold follow
      cases haccepted : records[k].accepted with
      | true =>
          rw [haccepted] at hdecision
          refine ⟨k + 1, .of_accepted hdecision, ?_⟩
          rw [Nat.sub_self]
          rfl
      | false =>
          rw [haccepted] at hdecision
          refine ⟨j, hlast.of_rejected hdecision, ?_⟩
          rw [Nat.succ_sub hlast.le, growth, ← hnu]
          rfl

end Replay

section Exact

variable [ExactScalar α] {d : Damping α}

theorem Positive.follow (hd : d.Positive) (r : Record α) : (d.follow r).Positive := by
  unfold Damping.follow
  split
  · exact hd.accept r.rho
  · exact hd.reject

theorem Positive.replay (hd : d.Positive) (records : List (Record α)) :
    (d.replay records).Positive := by
  induction records generalizing d with
  | nil => exact hd
  | cons r records ih => exact ih (hd.follow r)

theorem one_le_nu_follow (hnu : 1 ≤ d.nu) (r : Record α) : 1 ≤ (d.follow r).nu := by
  unfold follow
  split
  · rw [nu_accept]
    exact one_le_two
  · rw [reject, Scalar.two_eq]
    linarith

theorem floor_le_mu_accept (d : Damping α) (rho : α) : d.floor ≤ (d.accept rho).mu := by
  rw [accept, Scalar.larger_eq_max]
  exact le_max_left _ _

theorem mu_le_mu_reject (hmu : 0 ≤ d.mu) (hnu : 1 ≤ d.nu) : d.mu ≤ d.reject.mu :=
  le_mul_of_one_le_right hmu hnu

/-- What is above the floor stays there: an acceptance stops at the floor, and a rejection raises
the factor. -/
theorem floor_le_mu_follow (hd : d.Positive) (hnu : 1 ≤ d.nu) (hfloor : d.floor ≤ d.mu)
    (r : Record α) : d.floor ≤ (d.follow r).mu := by
  unfold follow
  split
  · exact d.floor_le_mu_accept r.rho
  · exact hfloor.trans (mu_le_mu_reject hd.mu_pos.le hnu)

theorem floor_le_mu_replay (hd : d.Positive) (hnu : 1 ≤ d.nu) (hfloor : d.floor ≤ d.mu)
    (records : List (Record α)) : d.floor ≤ (d.replay records).mu := by
  induction records generalizing d with
  | nil => exact hfloor
  | cons r records ih =>
      have hnext := ih (hd.follow r) (one_le_nu_follow hnu r)
        ((d.floor_follow r).trans_le (floor_le_mu_follow hd hnu hfloor r))
      rwa [floor_follow] at hnext

/-- From the first acceptance on the damping factor is not below the floor. -/
theorem floor_le_mu_of_accepted (hd : d.Positive) (hnu : 1 ≤ d.nu) {records : List (Record α)}
    (haccepted : ∃ r ∈ records, r.accepted = true) : d.floor ≤ (d.replay records).mu := by
  induction records generalizing d with
  | nil => simp at haccepted
  | cons r records ih =>
      rw [replay_cons, ← d.floor_follow r]
      by_cases hr : r.accepted = true
      · apply floor_le_mu_replay (hd.follow r) (one_le_nu_follow hnu r)
        rw [floor_follow, follow, if_pos hr]
        exact d.floor_le_mu_accept r.rho
      · apply ih (hd.follow r) (one_le_nu_follow hnu r)
        simpa [hr] using haccepted

end Exact

end Damping

variable [Scalar α]

namespace Trail

theorem map_rho_records (trail : Trail α m n) : trail.records.map Record.rho = trail.ratios := by
  apply List.ext_getElem?
  intro k
  rw [ratios, List.getElem?_map, List.getElem?_map, getElem?_records, Option.map_map]
  rfl

theorem accepted_of_mem_records {trail : Trail α m n} {r : Record α} (hr : r ∈ trail.records) :
    r.accepted = decide (Scalar.zero < r.rho) := by
  obtain ⟨k, hk⟩ := List.getElem?_of_mem hr
  rw [getElem?_records] at hk
  obtain ⟨a, _, rfl⟩ := Option.map_eq_some_iff.mp hk
  rfl

end Trail

/-- After `k` attempts the damping is what the first `k` records make of the one to start with. -/
theorem Setting.Runs.damping_eq_replay {c : Setting α n} {remaining i : Nat}
    {start s : State α m n} {trail : Trail α m n} (hrun : c.Runs remaining i start trail) {k : Nat}
    (hs : (trail.states start)[k]? = some s) :
    s.damping = start.damping.replay (trail.records.take k) := by
  rw [hrun.damping_eq hs, ← trail.map_rho_records, ← List.map_take, Damping.replay_eq_after]
  intro r hr
  exact Trail.accepted_of_mem_records (List.mem_of_mem_take hr)

/-- The damping that the answer at `x` gives to start with. -/
def Damping.StartsAt (config : Config α) (problem : Problem α n) (x : Vector α n)
    (d : Damping α) : Prop :=
  ∃ (e : Evaluation α) (jacobian : Mat α e.residuals.size n), problem 0 x true = .ok e ∧
    e.jacobianOf e.residuals.size n = .ok jacobian ∧
    start? config.tau jacobian.gram.diagonal.toList = some d

/-- Replaying some records from the damping `d` gives the damping of a course after each attempt,
its factors as the records show them. A growth factor is that of as many rejections in a row as
there were since the last acceptance, and the floor stays what it was. -/
structure Course.Replays (course : Course α n) (d : Damping α) (records : List (Record α)) :
    Prop where
  dampings_eq : ∀ k : Nat, k ≤ records.length →
    course.dampings[k]? = some (d.replay (records.take k))
  shown : ∀ (k : Nat) (r : Record α), records[k]? = some r →
    (d.replay (records.take (k + 1))).mu = r.mu ∧ (d.replay (records.take (k + 1))).nu = r.nu
  growth : ∀ (k : Nat) (r : Record α), records[k]? = some r →
    ∃ j, LastAccepted (records.map Record.accepted) (k + 1) j ∧
      r.nu = Damping.growth (k + 1 - j)
  floor_eq : ∀ k : Nat, (d.replay (records.take k)).floor = d.floor

section Solve

variable {config : Config α} {problem : Problem α n} {x : Vector α n} {start : State α m n}
  {trail : Trail α m n}

theorem startsAt_of_iterated (hcourse : minimize config problem x = .iterated m start trail) :
    start.damping.StartsAt config problem x ∧ start.damping.nu = Scalar.two := by
  obtain ⟨_, e, jacobian, hlaunch, _⟩ := exists_launch hcourse
  obtain rfl := hlaunch.answers.size_eq
  have hanswer := hlaunch.answers.answer_eq
  rw [hlaunch.point_eq] at hanswer
  exact ⟨⟨e, jacobian, hanswer, hlaunch.answers.jacobian_eq, hlaunch.damping_eq⟩,
    Damping.nu_of_start? hlaunch.damping_eq⟩

/-- The damping of a solve can be replayed from the records of its attempts. -/
theorem replays_of_iterated (hcourse : minimize config problem x = .iterated m start trail) :
    (minimize config problem x).Replays start.damping trail.records := by
  obtain ⟨_, _, _, _, hrun⟩ := exists_launch hcourse
  obtain ⟨_, hnu⟩ := startsAt_of_iterated hcourse
  have hlength := trail.length_records
  have hdampings : ∀ k : Nat, k ≤ trail.records.length →
      (Course.iterated m start trail).dampings[k]? =
        some (start.damping.replay (trail.records.take k)) := by
    intro k hk
    have hs := List.getElem?_eq_getElem (l := trail.states start) (i := k)
      (by rw [Trail.length_states]; omega)
    rw [Course.dampings, List.getElem?_map, hs, ← hrun.damping_eq_replay hs]
    rfl
  have hshown : ∀ (k : Nat) (r : Record α), trail.records[k]? = some r →
      (start.damping.replay (trail.records.take (k + 1))).mu = r.mu ∧
        (start.damping.replay (trail.records.take (k + 1))).nu = r.nu := by
    intro k r hr
    rw [Trail.getElem?_records] at hr
    obtain ⟨a, ha, rfl⟩ := Option.map_eq_some_iff.mp hr
    rw [← hrun.damping_eq_replay (Trail.states_succ ha)]
    exact ⟨rfl, rfl⟩
  rw [hcourse]
  refine ⟨hdampings, hshown, ?_, fun k => start.damping.floor_replay _⟩
  intro k r hr
  have hk : k < trail.records.length := (List.getElem?_eq_some_iff.mp hr).1
  rw [← (hshown k r hr).2]
  exact Damping.exists_growth hnu trail.records hk

end Solve

/-- Only a solve that iterates leaves records. -/
theorem exists_trail_of_trace {course : Course α n} {solution : Solution α n}
    {records : List (Record α)} (houtcome : course.outcome true = .ok solution)
    (htrace : solution.trace = some records) (hrecords : records ≠ []) :
    ∃ (m : Nat) (start : State α m n) (trail : Trail α m n),
      course = .iterated m start trail ∧ records = trail.records := by
  rcases Course.solution_cases houtcome with
    ⟨m, it, rfl, rfl⟩ | ⟨m, start, trail, reason, rfl, _, rfl⟩
  · cases htrace
    exact absurd rfl hrecords
  · cases htrace
    exact ⟨m, start, trail, rfl, rfl⟩

/-- A trace replays the damping. Accepting and rejecting as the records say, from the damping that
the start gives, leads after each record to the factors that it shows, in any arithmetic. In exact
arithmetic the damping factor of every record is positive, and it is not below the floor if that
record or one before it tells of an acceptance. -/
theorem minimize_trace_replays :
    (∀ {α : Type} [Scalar α] {n : Nat} (config : Config α) (problem : Problem α n)
      (x : Vector α n) (solution : Solution α n) (records : List (Record α)),
      (minimize config problem x).outcome true = .ok solution →
      solution.trace = some records → records ≠ [] →
      ∃ d, Damping.StartsAt config problem x d ∧ (minimize config problem x).Replays d records) ∧
    ∀ {α : Type} [ExactScalar α] {n : Nat} (config : Config α) (problem : Problem α n)
      (x : Vector α n) (solution : Solution α n) (records : List (Record α)),
      (minimize config problem x).outcome true = .ok solution →
      solution.trace = some records → records ≠ [] →
      ∃ d, Damping.StartsAt config problem x d ∧
        ∀ (k : Nat) (r : Record α), records[k]? = some r → 0 < r.mu ∧
          ((∃ r' ∈ records.take (k + 1), r'.accepted = true) → d.floor ≤ r.mu) := by
  constructor
  · intro α _ n config problem x solution records houtcome htrace hrecords
    obtain ⟨m, start, trail, hcourse, rfl⟩ := exists_trail_of_trace houtcome htrace hrecords
    exact ⟨start.damping, (startsAt_of_iterated hcourse).1, replays_of_iterated hcourse⟩
  · intro α _ n config problem x solution records houtcome htrace hrecords
    obtain ⟨m, start, trail, hcourse, rfl⟩ := exists_trail_of_trace houtcome htrace hrecords
    obtain ⟨hstarts, hnu⟩ := startsAt_of_iterated hcourse
    have hpositive := positive_of_states hcourse (trail.states_zero start)
    have hgrowth : 1 ≤ start.damping.nu := by
      rw [hnu, Scalar.two_eq]
      exact one_le_two
    refine ⟨start.damping, hstarts, ?_⟩
    intro k r hr
    obtain ⟨hmu, _⟩ := (replays_of_iterated hcourse).shown k r hr
    rw [← hmu]
    exact ⟨(hpositive.replay _).mu_pos, Damping.floor_le_mu_of_accepted hpositive hgrowth⟩

/-- A rejection followed by an acceptance, in doubles, and an exact solve whose first step is
accepted. -/
theorem minimize_trace_replays_both_decisions :
    (let config : Config Float := { Config.standard with maxIterations := 2 }
      let problem : Problem Float 1 := fun k _ _ =>
        .ok ⟨#[if k = 0 then 1.0 else if k = 1 then 2.0 else 0.5],
          some (.ofMat (.ofFn ![![1.0]]))⟩
      let course := minimize config problem #v[3.0]
      ∃ solution records d, course.outcome true = .ok solution ∧
        solution.trace = some records ∧ records.map Record.accepted = [false, true] ∧
        Damping.StartsAt config problem #v[3.0] d ∧ course.Replays d records) ∧
    ∃ solution records r d,
      (minimize .standard (.linear (.ofFn ![![1]]) #v[0]) (#v[1] : Vector ℝ 1)).outcome true =
        .ok solution ∧
      solution.trace = some records ∧ records[0]? = some r ∧ r.accepted = true ∧
      Damping.StartsAt .standard (.linear (.ofFn ![![1]]) #v[0]) (#v[1] : Vector ℝ 1) d ∧
      d.floor ≤ r.mu := by
  constructor
  · intro config problem course
    have hdecisions : (course.outcome true).toOption.map
        (fun s => s.trace.map (List.map Record.accepted)) = some (some [false, true]) := by
      decide +kernel +revert
    cases houtcome : course.outcome true with
    | error fault =>
        rw [houtcome] at hdecisions
        cases hdecisions
    | ok solution =>
        rw [houtcome] at hdecisions
        obtain ⟨records, htrace, haccepted⟩ :=
          Option.map_eq_some_iff.mp (Option.some.inj hdecisions)
        have hrecords : records ≠ [] := by
          rintro rfl
          cases haccepted
        obtain ⟨d, hstarts, hreplays⟩ :=
          minimize_trace_replays.1 config problem #v[3.0] solution records houtcome htrace hrecords
        exact ⟨solution, records, d, rfl, htrace, haccepted, hstarts, hreplays⟩
  · let a : Mat ℝ 1 1 := .ofFn ![![1]]
    have hlarge : Scalar.epsilon ≤ (Config.standard : Config ℝ).tau * a.gram.entry 0 0 := by
      rw [Scalar.epsilon_eq]
      norm_num [a, Mat.entry_gram_self, Config.standard]
    obtain ⟨start, trail, hcourse⟩ := exists_linear_eq_iterated a #v[0] #v[1]
      (Config.validate_standard .identity one_ne_zero) 0 hlarge
    have hcolumns : (Config.standard : Config ℝ).damping = .diagonal → ¬a.HasZeroColumn := by
      intro hdiagonal
      cases hdiagonal
    obtain ⟨t, ht⟩ := exists_attempt_of_goesOn hcolumns hcourse (trail.states_zero start)
      (trail.goesOn_zero (by decide) _)
    have haccepted : t.accepted = true := by
      obtain ⟨_, _, _, hlaunch, _⟩ := exists_launch hcourse
      obtain ⟨box, hbox, hrun⟩ := exists_free_box Bounds.free_unlimited hcourse
      obtain ⟨step, e, hmade⟩ :=
        Setting.made_of_attempt (hrun.attempt_eq (trail.states_zero start) ht)
      refine (hmade.exact_of_linear (linear_of_states hcourse (trail.states_zero start))
        (hmade.trial_eq_of_free hbox) ?_).accepted
      rw [hlaunch.point_eq, a.stationary_iff, Mat.get_transposeMulVec, get_minus_eq_sub,
        Mat.get_mulVec]
      intro hstationary
      simpa [a, Matrix.mulVec, dotProduct, Vector.get] using congrFun hstationary 0
    obtain ⟨reason, hending⟩ := exists_ending_eq_stopped hcolumns hcourse
    have houtcome := (congrArg (Course.outcome true) hcourse).trans
      (Course.outcome_of_stopped hending true)
    obtain ⟨r, hr, hr'⟩ : ∃ r, trail.records[0]? = some r ∧ r.accepted = true := by
      rw [Trail.getElem?_records, ht]
      exact ⟨_, rfl, haccepted⟩
    have hrecords : trail.records ≠ [] := by
      intro hnil
      rw [hnil] at hr
      cases hr
    obtain ⟨d, hstarts, hshown⟩ :=
      minimize_trace_replays.2 _ _ _ _ trail.records houtcome rfl hrecords
    have hmem : r ∈ trail.records.take 1 :=
      List.mem_of_getElem? ((List.getElem?_take_of_lt Nat.zero_lt_one).trans hr)
    exact ⟨_, trail.records, r, d, houtcome, rfl, hr, hr', hstarts,
      (hshown 0 r hr).2 ⟨r, hmem, hr'⟩⟩

end LeastSquares
