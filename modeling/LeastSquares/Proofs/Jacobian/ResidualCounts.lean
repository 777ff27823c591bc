import Mathlib
import LeastSquares.Jacobian.Check
import LeastSquares.Random.Ziggurat

/-! # Residual counts in a probe

A probe subtracts the residuals at its base point from those at its probe point without comparing
how many there are. A single residual on one side stands for all of them, so what a changed count
comes to depends on which side has one: it is reported, taken for a change of all residuals, or
does not fit the subtraction at all. A solve and the difference quotients compare the counts first.
The arithmetic is arbitrary.
-/

namespace LeastSquares

variable {α β : Type} {m n : Nat}

namespace Run

variable {problem : Problem α n} {k : Nat} {x : Vector α n} {wantsJacobian : Bool}
  {next : Evaluation α → Run α n β}

theorem ask_bind_of_ok {e : Evaluation α} (hanswer : problem k x wantsJacobian = .ok e) :
    ask problem k x wantsJacobian >>= next =
      ⟨⟨wantsJacobian, x⟩ :: (next e).calls, (next e).outcome⟩ :=
  Logged.bind_of_ok hanswer next

theorem ask_bind_of_error {fault : Fault α} (hanswer : problem k x wantsJacobian = .error fault) :
    ask problem k x wantsJacobian >>= next = ⟨[⟨wantsJacobian, x⟩], .error fault⟩ :=
  Logged.bind_of_error hanswer next

end Run

/-- A list is taken for a vector if it has that length, or a single entry. -/
theorem exists_spread? {n : Nat} {l : List α} (hlength : l.length = n ∨ l.length = 1) :
    ∃ v, spread? n l = some v := by
  unfold spread?
  split
  · exact ⟨_, rfl⟩
  next hsize =>
    rw [List.size_toArray] at hsize
    obtain ⟨a, rfl⟩ := List.length_eq_one_iff.mp (hlength.resolve_left hsize)
    exact ⟨_, rfl⟩

theorem spread?_eq_none {n : Nat} {l : List α} (hlength : l.length ≠ n) (hsingle : l.length ≠ 1) :
    spread? n l = none := by
  unfold spread?
  rw [dif_neg (by simpa using hlength)]
  split
  · exact absurd rfl hsingle
  · rfl

variable [Scalar α]

theorem Tensor.gap_ofList_of_length_eq {a b : List α} (hlength : a.length = b.length) :
    (Tensor.ofList a).gap (.ofList b) = .ok (.between a b) :=
  if_pos (congrArg (fun k => [k]) hlength)

theorem Tensor.gap_ofList_of_length_ne {a b : List α} (hlength : a.length ≠ b.length) :
    (Tensor.ofList a).gap (.ofList b) = .error (.unlikeShapes [a.length] [b.length]) :=
  if_neg fun hshape => hlength (List.head_eq_of_cons_eq hshape)

namespace Probe

/-- What a change of the residuals is subtracted as, if one side has a single residual. -/
theorem exists_change? (before after : List α)
    (hsingle : before.length = 1 ∨ after.length = 1) :
    ∃ change, change? before after = some change ∧
      change.length = if before.length = 1 then after.length else before.length := by
  unfold change?
  dsimp only
  by_cases hbefore : before.length = 1
  · rw [if_pos hbefore]
    obtain ⟨v, hv⟩ := exists_spread? (n := after.length) (Or.inr hbefore)
    obtain ⟨w, hw⟩ := exists_spread? (n := after.length) (l := after) (Or.inl rfl)
    rw [hv, hw]
    exact ⟨_, rfl, Vector.length_toList⟩
  · rw [if_neg hbefore]
    obtain ⟨v, hv⟩ := exists_spread? (n := before.length) (l := before) (Or.inl rfl)
    obtain ⟨w, hw⟩ := exists_spread? (n := before.length) (Or.inr (hsingle.resolve_left hbefore))
    rw [hv, hw]
    exact ⟨_, rfl, Vector.length_toList⟩

theorem change?_eq_none {before after : List α} (hcount : after.length ≠ before.length)
    (hbefore : before.length ≠ 1) (hafter : after.length ≠ 1) : change? before after = none := by
  unfold change?
  dsimp only
  rw [if_neg hbefore, spread?_eq_none hcount hafter]
  cases spread? before.length before with
  | none => rfl
  | some _ => rfl

/-- What a probe compares when the number of residuals has changed. A fault is a mismatch only if
the base point has a single residual, and a single residual at the other end passes for as many as
there were. -/
theorem compare_of_changed_count (before : Vector α m) (jacobian : Mat α m n) (move : Vector α n)
    {after : List α} (hcount : after.length ≠ m) :
    (m = 1 → compare before jacobian move after = .error (.unlikeShapes [after.length] [1])) ∧
    (m ≠ 1 → after.length = 1 → ∃ gap, compare before jacobian move after = .ok gap) ∧
    (m ≠ 1 → after.length ≠ 1 → compare before jacobian move after = .error .operandShapes) := by
  have hbefore : before.toList.length = m := Vector.length_toList
  have hpredicted : (jacobian.mulVec move).toList.length = m := Vector.length_toList
  unfold compare
  refine ⟨?_, ?_, ?_⟩
  · rintro rfl
    obtain ⟨change, hchange, hlength⟩ := exists_change? _ after (Or.inl hbefore)
    rw [if_pos hbefore] at hlength
    rw [hchange]
    dsimp only
    rw [Tensor.gap_ofList_of_length_ne (by rwa [hlength, hpredicted]), hlength, hpredicted]
  · intro hm hafter
    obtain ⟨change, hchange, hlength⟩ := exists_change? before.toList _ (Or.inr hafter)
    rw [hbefore, if_neg hm] at hlength
    rw [hchange]
    exact ⟨_, Tensor.gap_ofList_of_length_eq (hlength.trans hpredicted.symm)⟩
  · intro hm hafter
    rw [change?_eq_none (by rwa [hbefore]) (by rwa [hbefore]) hafter]

/-- A probe that makes a second call: the direction leads somewhere, the base point is answered with
a Jacobian of the right shape, and what the second call gives is compared with it. -/
theorem along_of_second_call {p : Probe α} {problem : Problem α n} {base direction x y : Vector α n}
    {start finish : Evaluation α}
    (hcalls : (p.along problem base direction).calls = [⟨true, x⟩, ⟨false, y⟩])
    (hstart : problem 0 x true = .ok start) (hfinish : problem 1 y false = .ok finish) :
    ∃ jacobian : Mat α start.residuals.size n,
      start.jacobianOf start.residuals.size n = .ok jacobian ∧
      (p.along problem base direction).outcome =
        (compare start.vector jacobian (minus y x) finish.residuals.toList).map p.report := by
  unfold along at hcalls ⊢
  cases htarget : p.target? base direction with
  | none =>
      rw [htarget] at hcalls
      cases hcalls
  | some target =>
      rw [htarget] at hcalls
      dsimp only at hcalls ⊢
      cases hanswer : problem 0 base true with
      | error fault =>
          rw [Run.ask_bind_of_error hanswer] at hcalls
          cases hcalls
      | ok e =>
          rw [Run.ask_bind_of_ok hanswer] at hcalls ⊢
          cases hjacobian : e.jacobianOf e.residuals.size n with
          | error fault =>
              rw [hjacobian, Logged.settle_error_bind] at hcalls
              cases hcalls
          | ok jacobian =>
              rw [hjacobian, Logged.settle_ok_bind] at hcalls
              rw [Logged.settle_ok_bind]
              cases hsecond : problem 1 target false with
              | error fault =>
                  rw [Run.ask_bind_of_error hsecond] at hcalls
                  cases hcalls
                  rw [hfinish] at hsecond
                  cases hsecond
              | ok e' =>
                  rw [Run.ask_bind_of_ok hsecond, Logged.settle_bind_pure] at hcalls
                  rw [Run.ask_bind_of_ok hsecond, Logged.settle_bind_pure]
                  cases hcalls
                  obtain rfl := Except.ok.inj (hanswer.symm.trans hstart)
                  obtain rfl := Except.ok.inj (hsecond.symm.trans hfinish)
                  exact ⟨jacobian, hjacobian, rfl⟩

/-- What it takes for the second call to be made. -/
theorem calls_along {p : Probe α} {problem : Problem α n} {base direction target : Vector α n}
    {start finish : Evaluation α} {jacobian : Mat α start.residuals.size n}
    (htarget : p.target? base direction = some target) (hstart : problem 0 base true = .ok start)
    (hjacobian : start.jacobianOf start.residuals.size n = .ok jacobian)
    (hfinish : problem 1 target false = .ok finish) :
    (p.along problem base direction).calls = [⟨true, base⟩, ⟨false, target⟩] := by
  unfold along
  rw [htarget]
  dsimp only
  rw [Run.ask_bind_of_ok hstart, hjacobian, Logged.settle_ok_bind, Run.ask_bind_of_ok hfinish,
    Logged.settle_bind_pure]
  rfl

/-- Before a probe is made along a direction nothing is asked. -/
theorem exists_along_of_call {p : Probe α} {source : Source α} {problem : Problem α n}
    {base direction : Option (List α)} {seed : UInt64} {call : Call α n}
    (hcall : call ∈ (p.check source problem base direction seed).calls) :
    ∃ base' direction', p.check source problem base direction seed =
      p.along problem base' direction' := by
  unfold check at hcall ⊢
  cases hbase : orDrawn base source seed n with
  | error fault =>
      rw [hbase] at hcall
      cases hcall
  | ok from' =>
      cases hdirection : orDrawn direction source (seed + 1) n with
      | error fault =>
          rw [hbase, hdirection] at hcall
          cases hcall
      | ok towards =>
          rw [hbase, hdirection] at hcall
          rw [Logged.settle_ok_bind, Logged.settle_ok_bind] at hcall ⊢
          unfold run at hcall ⊢
          split
          next hsizes => exact ⟨_, _, rfl⟩
          next hsizes =>
            rw [dif_neg hsizes] at hcall
            cases hcall

/-- So many zeros, with a Jacobian of zeros for one parameter. -/
def zeros (count : Nat) : Evaluation α :=
  let residuals := Array.replicate count Scalar.zero
  ⟨residuals, some (.ofMat (.ofFn fun (_ : Fin residuals.size) (_ : Fin 1) => Scalar.zero))⟩

theorem exists_jacobianOf_zeros (count : Nat) :
    ∃ jacobian, (zeros count : Evaluation α).jacobianOf (zeros count : Evaluation α).residuals.size
      1 = .ok jacobian :=
  ⟨_, Evaluation.jacobianOf_ofMat _ _⟩

/-- A problem that answers zeros, as many as `counts` says for each call. -/
def recounting (counts : Nat → Nat) : Problem α 1 := fun k _ _ => .ok (zeros (counts k))

/-- Whatever the counts, a probe of such a problem comes to its second call. -/
theorem calls_recounting (counts : Nat → Nat) :
    ∃ y, (standard.check Random.ziggurat (recounting counts) (some [0]) (some [1]) 0).calls =
      [⟨true, #v[(0 : Float)]⟩, ⟨false, y⟩] := by
  have hsome : (standard.target? #v[(0 : Float)] #v[1]).isSome = true := by decide +kernel
  obtain ⟨y, hy⟩ := Option.isSome_iff_exists.mp hsome
  obtain ⟨jacobian, hjacobian⟩ := exists_jacobianOf_zeros (α := Float) (counts 0)
  have hstart : recounting counts 0 #v[(0 : Float)] true = .ok (zeros (counts 0)) := rfl
  have hcalls := calls_along hy hstart hjacobian rfl
  exact ⟨y, hcalls⟩

/-- A probe that makes its second call, and gets another number of residuals there than at the base
point, reports a mismatch only if there is a single residual at the base point. If there is a single
one at the other end it returns a report as if nothing had happened, and otherwise the residuals
cannot be subtracted at all. -/
theorem check_of_changed_count (p : Probe α) (source : Source α) (problem : Problem α n)
    (base direction : Option (List α)) (seed : UInt64) {x y : Vector α n}
    {start finish : Evaluation α}
    (hcalls : (p.check source problem base direction seed).calls = [⟨true, x⟩, ⟨false, y⟩])
    (hstart : problem 0 x true = .ok start) (hfinish : problem 1 y false = .ok finish)
    (hcount : finish.residuals.size ≠ start.residuals.size) :
    let outcome := (p.check source problem base direction seed).outcome
    (start.residuals.size = 1 →
      outcome = .error (.unlikeShapes [finish.residuals.size] [1])) ∧
    (start.residuals.size ≠ 1 → finish.residuals.size = 1 → ∃ report, outcome = .ok report) ∧
    (start.residuals.size ≠ 1 → finish.residuals.size ≠ 1 → outcome = .error .operandShapes) := by
  obtain ⟨base', direction', hcheck⟩ :=
    exists_along_of_call (hcalls ▸ List.mem_cons_self : _ ∈ (p.check source problem _ _ _).calls)
  rw [hcheck] at hcalls ⊢
  obtain ⟨jacobian, _, houtcome⟩ := along_of_second_call hcalls hstart hfinish
  have hlength : finish.residuals.toList.length ≠ start.residuals.size := hcount
  obtain ⟨hreported, hpassed, hunfit⟩ :=
    compare_of_changed_count start.vector jacobian (minus y x) hlength
  rw [Array.length_toList] at hreported hpassed hunfit
  refine ⟨?_, ?_, ?_⟩
  · intro hsingle
    rw [houtcome, hreported hsingle]
    rfl
  · intro hbase hfinal
    obtain ⟨gap, hgap⟩ := hpassed hbase hfinal
    rw [houtcome, hgap]
    exact ⟨_, rfl⟩
  · intro hbase hfinal
    rw [houtcome, hunfit hbase hfinal]
    rfl

/-- From one residual to two a mismatch is reported, from two to one there is a report, and from two
to three there is no subtraction. -/
theorem check_recounting :
    let outcome := fun counts =>
      (standard.check Random.ziggurat (recounting counts) (some [(0 : Float)]) (some [1]) 0).outcome
    outcome (fun k => k + 1) = .error (.unlikeShapes [2] [1]) ∧
      (∃ report, outcome (fun k => 2 - k) = .ok report) ∧
      outcome (fun k => k + 2) = .error .operandShapes := by
  intro outcome
  refine ⟨?_, ?_, ?_⟩
  · obtain ⟨y, hcalls⟩ := calls_recounting fun k => k + 1
    exact (check_of_changed_count standard _ _ _ _ _ hcalls rfl rfl (by decide)).1 rfl
  · obtain ⟨y, hcalls⟩ := calls_recounting fun k => 2 - k
    exact (check_of_changed_count standard _ _ _ _ _ hcalls rfl rfl (by decide)).2.1 (by decide) rfl
  · obtain ⟨y, hcalls⟩ := calls_recounting fun k => k + 2
    exact (check_of_changed_count standard _ _ _ _ _ hcalls rfl rfl (by decide)).2.2 (by decide)
      (by decide)

/-- From two residuals to one, the check passes. -/
theorem check_two_then_one :
    let problem := recounting fun k => 2 - k
    let outcome := (standard.check Random.ziggurat problem (some [0]) (some [1]) 0).outcome
    ∃ report : Report Float, outcome = .ok report ∧ report.passed = true := by
  intro problem outcome
  have hpassed : (match outcome with
      | .error _ => false
      | .ok report => report.passed) = true := by
    decide +kernel
  cases houtcome : outcome with
  | error fault =>
      rw [houtcome] at hpassed
      cases hpassed
  | ok report =>
      rw [houtcome] at hpassed
      exact ⟨report, rfl, hpassed⟩

end Probe

end LeastSquares
