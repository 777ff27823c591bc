import Mathlib
import LeastSquares.Proofs.Replay

/-! # How far the damping can move

In exact arithmetic an acceptance takes the damping factor down to a third at most, and up to twice
what it was if the step did hardly anything; the better the step, the lower the factor, but never
below the floor. Rejections in a row multiply it by two, by four, by eight. So in any sequence of
the two only the acceptances lower the factor, and the growth factor counts the rejections since the
last of them.
-/

namespace LeastSquares.Damping

variable {α : Type} [ExactScalar α] {d : Damping α}

section Acceptance

/-- The better a step did, the less damping is left. -/
theorem antitone_mu_accept (hmu : 0 ≤ d.mu) : Antitone fun rho => (d.accept rho).mu := by
  intro rho rho' hle
  have hcube : (2 * rho - 1) ^ 3 ≤ (2 * rho' - 1) ^ 3 := by
    apply (Odd.strictMono_pow (by decide)).monotone
    linarith
  simp only [mu_accept]
  gcongr

/-- The limit for steps that do almost nothing of what was predicted. -/
theorem mu_accept_zero (d : Damping α) : (d.accept 0).mu = max d.floor (2 * d.mu) := by
  rw [mu_accept]
  norm_num [mul_comm]

/-- A step that did half of what was predicted leaves the damping as it is. -/
theorem mu_accept_half (d : Damping α) : (d.accept (1 / 2)).mu = max d.floor d.mu := by
  rw [mu_accept]
  norm_num

theorem third_le_mu_accept (hmu : 0 ≤ d.mu) (rho : α) :
    max d.floor (d.mu / 3) ≤ (d.accept rho).mu := by
  rw [mu_accept, div_eq_mul_one_div]
  gcongr
  exact le_max_left _ _

end Acceptance

section Rejections

theorem nu_iterate_reject (hnu : d.nu = 2) (j : Nat) : (reject^[j] d).nu = 2 ^ (j + 1) := by
  induction j with
  | zero => simpa using hnu
  | succ j ih => rw [Function.iterate_succ_apply', reject, ih, Scalar.two_eq, ← pow_succ]

/-- Each rejection in a row adds one more factor of two than the one before it. -/
theorem mu_iterate_reject (hnu : d.nu = 2) (j : Nat) :
    (reject^[j] d).mu = d.mu * 2 ^ (j * (j + 1) / 2) := by
  induction j with
  | zero => simp
  | succ j ih =>
      have htriangle : (j + 1) * (j + 1 + 1) / 2 = j * (j + 1) / 2 + (j + 1) := by
        simpa [Nat.mul_comm] using Nat.triangle_succ (j + 1)
      calc
        (reject^[j + 1] d).mu = (reject^[j] d).mu * (reject^[j] d).nu := by
          rw [Function.iterate_succ_apply', reject]
        _ = d.mu * 2 ^ (j * (j + 1) / 2) * 2 ^ (j + 1) := by
          rw [ih, nu_iterate_reject hnu]
        _ = d.mu * 2 ^ ((j + 1) * (j + 1 + 1) / 2) := by
          rw [htriangle, pow_add _ (j * (j + 1) / 2), mul_assoc]

theorem growth_eq_pow (k : Nat) : (growth k : α) = 2 ^ (1 + k) := by
  induction k with
  | zero => simp [growth]
  | succ k ih => rw [growth, ih, Scalar.two_eq, ← pow_succ, add_assoc]

end Rejections

section Sequences

/-- Only acceptances lower the damping factor, each of them to a third at most. -/
theorem div_pow_le_mu_replay (hd : d.Positive) (hnu : 1 ≤ d.nu) (records : List (Record α)) :
    d.mu / 3 ^ records.countP Record.accepted ≤ (d.replay records).mu := by
  -- The first record leaves a damping for which the bound on the other records holds.
  induction records generalizing d with
  | nil => simp
  | cons r records ih =>
      have hrest := ih (hd.follow r) (one_le_nu_follow hnu r)
      rw [replay_cons]
      refine le_trans ?_ hrest
      by_cases hr : r.accepted = true
      · have hthird : d.mu / 3 ≤ (d.follow r).mu := by
          rw [follow, if_pos hr]
          exact (le_max_right _ _).trans (third_le_mu_accept hd.mu_pos.le r.rho)
        rw [List.countP_cons_of_pos hr, pow_succ', ← div_div]
        gcongr
      · have hraised : d.mu ≤ (d.follow r).mu := by
          rw [follow, if_neg hr]
          exact mu_le_mu_reject hd.mu_pos.le hnu
        rw [List.countP_cons_of_neg hr]
        gcongr

end Sequences

/-- An acceptance takes the damping factor to between a third and twice what it was, unless the
floor is higher; a better step never leaves more damping, and at half of the prediction the change
turns from a rise into a fall. Rejections in a row, from the growth factor two on, raise the factor
by the powers of two with triangular exponents. After any sequence of acceptances and rejections the
factor has lost at most a third for each acceptance, it is not below the floor if there was one, and
the growth factor is two doubled for each rejection since the last acceptance. -/
theorem updates_range (d : Damping α) (hmu : 0 < d.mu) (hfloor : 0 < d.floor) :
    (∀ rho, 0 < rho →
      max d.floor (d.mu / 3) ≤ (d.accept rho).mu ∧
      (d.accept rho).mu ≤ max d.floor (2 * d.mu) ∧
      (∀ rho', rho ≤ rho' → (d.accept rho').mu ≤ (d.accept rho).mu) ∧
      (rho ≤ 1 / 2 → d.mu ≤ (d.accept rho).mu) ∧
      (1 / 2 ≤ rho → (d.accept rho).mu ≤ max d.floor d.mu)) ∧
    (d.nu = 2 → ∀ j : Nat,
      (reject^[j] d).mu = d.mu * 2 ^ (j * (j + 1) / 2) ∧ (reject^[j] d).nu = 2 ^ (j + 1)) ∧
    (d.nu = 2 → ∀ records : List (Record α),
      d.mu / 3 ^ records.countP Record.accepted ≤ (d.replay records).mu ∧
      (1 ≤ records.countP Record.accepted → d.floor ≤ (d.replay records).mu) ∧
      ∃ j, LastAccepted (records.map Record.accepted) records.length j ∧
        (d.replay records).nu = 2 ^ (1 + (records.length - j))) := by
  refine ⟨?_, ?_, ?_⟩
  · intro rho hrho
    have hantitone := antitone_mu_accept hmu.le
    refine ⟨third_le_mu_accept hmu.le rho, ?_, fun rho' hle => hantitone hle, ?_, ?_⟩
    · rw [← mu_accept_zero]
      exact hantitone hrho.le
    · intro hhalf
      exact ((le_max_right _ _).trans (mu_accept_half d).ge).trans (hantitone hhalf)
    · intro hhalf
      exact (hantitone hhalf).trans (mu_accept_half d).le
  · intro hnu j
    exact ⟨mu_iterate_reject hnu j, nu_iterate_reject hnu j⟩
  · intro hnu records
    have hd : d.Positive := ⟨hmu, hnu ▸ zero_lt_two, hfloor⟩
    have hone : 1 ≤ d.nu := hnu ▸ one_le_two
    refine ⟨div_pow_le_mu_replay hd hone records, ?_, ?_⟩
    · intro haccepted
      exact floor_le_mu_of_accepted hd hone (List.countP_pos_iff.mp haccepted)
    · obtain ⟨j, hlast, hgrowth⟩ :=
        exists_growth (hnu.trans Scalar.two_eq.symm) records (Nat.le_refl _)
      refine ⟨j, hlast, ?_⟩
      rw [List.take_length] at hgrowth
      rw [hgrowth, growth_eq_pow]

/-- A rejection, a poor step that is accepted, and two more rejections. -/
theorem updates_range_mixed :
    let d : Damping ℝ := ⟨1, 2, 1 / 1000000000000⟩
    let record (accepted : Bool) (rho : ℝ) : Record ℝ := ⟨0, 0, rho, 0, 0, accepted⟩
    let records := [record false (-1), record true (1 / 4), record false 0, record false (-2)]
    0 < d.mu ∧ 0 < d.floor ∧ d.nu = 2 ∧
      1 / 3 ≤ (d.replay records).mu ∧ (d.replay records).nu = 8 ∧
      (reject^[3] d).mu = 64 ∧ 1 ≤ (d.accept (1 / 4)).mu := by
  intro d record records
  have hmu : 0 < d.mu := one_pos
  have hfloor : 0 < d.floor := by norm_num [d]
  obtain ⟨haccept, hreject, hreplay⟩ := updates_range d hmu hfloor
  obtain ⟨hlower, _, j, hlast, hnu⟩ := hreplay rfl records
  have htwo : LastAccepted (records.map Record.accepted) records.length 2 :=
    .of_rejected (.of_rejected (.of_accepted rfl) rfl) rfl
  obtain rfl := hlast.unique htwo
  refine ⟨hmu, hfloor, rfl, ?_, ?_, ?_, ?_⟩
  · have hcount : records.countP Record.accepted = 1 := rfl
    rw [hcount, pow_one] at hlower
    exact hlower
  · rw [hnu]
    norm_num [records]
  · rw [(hreject rfl 3).1]
    norm_num [d]
  · exact (haccept (1 / 4) (by norm_num)).2.2.2.1 (by norm_num)

end LeastSquares.Damping
