import Mathlib
import LeastSquares.Proofs.Config.RoundTrip
import LeastSquares.Proofs.Alignment
import LeastSquares.Proofs.Clipping
import LeastSquares.Proofs.Comparison
import LeastSquares.Proofs.Validation

/-! # Infinite limits

No number lies above an infinite upper limit or below a lower limit of minus infinity, and nothing
is compared with what is not a number. So such limits neither cross others nor move a point, and a
solve is the same without them. This is what makes writing and reading a configuration harmless:
the limits that get lost on the way are of this kind, unless they exclude every number.
-/

namespace LeastSquares

variable {α : Type} {n : Nat}

open Scalar

/-- Of the values that are not finite, those that are not negative have nothing above them, and those
that are not positive nothing below. -/
class LawfulInfinity (α : Type) [Scalar α] : Prop where
  not_lt_of_not_negative {a : α} : isFinite a = false → ¬a < zero → ∀ x, ¬a < x
  not_gt_of_not_positive {a : α} : isFinite a = false → ¬zero < a → ∀ x, ¬x < a

namespace Double

open Float.Model (UnpackedFloat)

/-- What is not finite is not a number, or it lies below or above all numbers. -/
theorem unpack_of_not_finite {a : Float} (ha : isFinite a = false) :
    a.toModel.unpack = .notANumber ∨ a.toModel.unpack = .infinity .negative ∨
      a.toModel.unpack = .infinity .positive := by
  have hunpack : a.toModel.unpack.isFinite = false := ha
  cases hcase : a.toModel.unpack with
  | notANumber => exact Or.inl rfl
  | infinity sign => cases sign <;> simp
  | zero sign =>
      rw [hcase] at hunpack
      cases hunpack
  | finite sign mantissa exponent hmantissa =>
      rw [hcase] at hunpack
      cases hunpack

/-- Every number stands between the two infinities. -/
theorem rank?_between {u : UnpackedFloat} {p : ℤ ×ₗ ℤ ×ₗ ℤ} (hp : p ∈ rank? u) :
    toLex (-2, toLex (0, 0)) ≤ p ∧ p ≤ toLex (2, toLex (0, 0)) := by
  rcases u with (_ | _) | _ | s | ⟨_ | _, m, e, hm⟩ <;>
    simp only [rank?, Option.mem_def, Option.some.injEq, reduceCtorEq] at hp <;>
    subst hp <;> simp [Prod.Lex.toLex_le_toLex]

end Double

open Double in
instance : LawfulInfinity Float where
  not_lt_of_not_negative {a} ha hnegative x hlt := by
    obtain ⟨p, hp, q, hq, hpq⟩ := (lt_iff a x).mp hlt
    rcases unpack_of_not_finite ha with hcase | hcase | hcase
    · rw [hcase] at hp
      cases hp
    · refine hnegative ((lt_iff a zero).mpr ?_)
      rw [hcase, unpack_zero]
      exact ⟨_, rfl, _, rfl, by decide⟩
    · rw [hcase] at hp
      cases hp
      exact absurd hpq (not_lt.mpr (rank?_between hq).2)
  not_gt_of_not_positive {a} ha hpositive x hlt := by
    obtain ⟨p, hp, q, hq, hpq⟩ := (lt_iff x a).mp hlt
    rcases unpack_of_not_finite ha with hcase | hcase | hcase
    · rw [hcase] at hq
      cases hq
    · rw [hcase] at hq
      cases hq
      exact absurd hpq (not_lt.mpr (rank?_between hp).1)
    · refine hpositive ((lt_iff zero a).mpr ?_)
      rw [hcase, unpack_zero]
      exact ⟨_, rfl, _, rfl, by decide⟩

variable [Scalar α]

/-- No limit excludes every number: no upper limit is minus infinity, and no lower one infinity. -/
structure Bounds.Feasible (b : Bounds α) : Prop where
  lower : ∀ lo, some lo ∈ b.lower → isFinite lo = false → ¬zero < lo
  upper : ∀ hi, some hi ∈ b.upper → isFinite hi = false → ¬hi < zero

namespace Limits

def finitePart (limits : Limits α n) : Limits α n := limits.map (Vector.map finiteLimit)

theorem at_finitePart (limits : Limits α n) (i : Fin n) :
    limits.finitePart.at i = finiteLimit (limits.at i) := by
  cases limits with
  | none => rfl
  | some entries => exact get_map finiteLimit entries i

end Limits

namespace Box

def finitePart (box : Box α n) : Box α n := ⟨box.lower.finitePart, box.upper.finitePart⟩

/-- What `Bounds.Feasible` means for a box. -/
structure Feasible (box : Box α n) : Prop where
  lower : ∀ i lo, box.lower.at i = some lo → isFinite lo = false → ¬zero < lo
  upper : ∀ i hi, box.upper.at i = some hi → isFinite hi = false → ¬hi < zero

variable [LawfulInfinity α]

theorem lowered_finiteLimit {limit : Option α}
    (hlimit : ∀ hi, limit = some hi → isFinite hi = false → ¬hi < zero) (x : α) :
    lowered (finiteLimit limit) x = lowered limit x := by
  rcases finiteLimit_cases limit with hsame | ⟨hi, rfl, hfinite, hnone⟩
  · rw [hsame]
  · have habove := LawfulInfinity.not_lt_of_not_negative hfinite (hlimit hi rfl hfinite) x
    rw [hnone, lowered, lowered, if_neg habove]

theorem raised_finiteLimit {limit : Option α}
    (hlimit : ∀ lo, limit = some lo → isFinite lo = false → ¬zero < lo) (x : α) :
    raised (finiteLimit limit) x = raised limit x := by
  rcases finiteLimit_cases limit with hsame | ⟨lo, rfl, hfinite, hnone⟩
  · rw [hsame]
  · have hbelow := LawfulInfinity.not_gt_of_not_positive hfinite (hlimit lo rfl hfinite) x
    rw [hnone, raised, raised, if_neg hbelow]

/-- Infinite limits that do not exclude every number move no point. -/
theorem Feasible.clip_finitePart {box : Box α n} (hbox : box.Feasible) (x : Vector α n) :
    box.finitePart.clip x = box.clip x := by
  apply ext_get
  intro i
  rw [get_clip, get_clip, finitePart, Limits.at_finitePart, Limits.at_finitePart,
    lowered_finiteLimit (hbox.upper i), raised_finiteLimit (hbox.lower i)]

/-- A limit that is dropped crosses none. -/
theorem crossed?_finiteLimit {lo hi : Option α}
    (hlo : ∀ x, lo = some x → isFinite x = false → ¬zero < x)
    (hhi : ∀ x, hi = some x → isFinite x = false → ¬x < zero) (i : Nat) :
    crossed? (finiteLimit lo) (finiteLimit hi) i = crossed? lo hi i := by
  rcases finiteLimit_cases lo with hlower | ⟨x, rfl, hx, hnone⟩
  · rw [hlower]
    rcases finiteLimit_cases hi with hupper | ⟨y, rfl, hy, hnone⟩
    · rw [hupper]
    · rw [hnone]
      cases lo with
      | none => rfl
      | some x =>
          have habove := LawfulInfinity.not_lt_of_not_negative hy (hhi y rfl hy) x
          exact (if_neg habove).symm
  · rw [hnone]
    cases hi with
    | none => rfl
    | some y =>
        have hbelow := LawfulInfinity.not_gt_of_not_positive hx (hlo x rfl hx) y
        exact (if_neg hbelow).symm

/-- Nor do they cross other limits. -/
theorem Feasible.crossing?_finitePart {box : Box α n} (hbox : box.Feasible) :
    box.finitePart.crossing? = box.crossing? := by
  obtain ⟨_ | lower, _ | upper⟩ := box
  · rfl
  · rfl
  · rfl
  · show (⟨some (lower.map finiteLimit), some (upper.map finiteLimit)⟩ : Box α n).crossing? = _
    rw [crossing?_eq_findSome?, crossing?_eq_findSome?]
    congr 1
    funext i
    rw [get_map, get_map]
    exact crossed?_finiteLimit (hbox.lower i) (hbox.upper i) i

end Box

/-- Without its infinite limits a side fits exactly if it fits with them. -/
theorem Bounds.checkedSide_map_finiteLimit (side : Side) (entries : List (Option α)) :
    checkedSide side n (entries.map finiteLimit) =
      (checkedSide side n entries).map Limits.finitePart := by
  unfold checkedSide
  cases entries with
  | nil => rfl
  | cons entry entries =>
      simp only [List.map_cons, List.isEmpty_cons, Bool.false_eq_true, if_false]
      by_cases hsize : (entry :: entries).toArray.size = n
      · have hmapped : (finiteLimit entry :: entries.map finiteLimit).toArray.size = n := by
          simpa using hsize
        have hvector : Vector.mk _ hmapped = (Vector.mk _ hsize).map finiteLimit := by
          apply Vector.toArray_inj.mp
          simp
        rw [dif_pos hsize, dif_pos hmapped, hvector]
        rfl
      · have hmapped : ¬(finiteLimit entry :: entries.map finiteLimit).toArray.size = n := by
          simpa using hsize
        rw [dif_neg hsize, dif_neg hmapped, List.length_cons, List.length_map]
        rfl

variable [LawfulInfinity α]

/-- Bounds fit without their infinite limits exactly if they fit with them, and if not, for the same
reason. -/
theorem Bounds.Feasible.validate_finitePart {b : Bounds α} (hb : b.Feasible) (n : Nat) :
    b.finitePart.validate n = (b.validate n).map Box.finitePart := by
  unfold validate finitePart
  dsimp only
  rw [checkedSide_map_finiteLimit, checkedSide_map_finiteLimit]
  cases hlower : checkedSide .lower n b.lower with
  | error fault => rfl
  | ok lower =>
      cases hupper : checkedSide .upper n b.upper with
      | error fault => rfl
      | ok upper =>
          have hbox : (⟨lower, upper⟩ : Box α n).Feasible :=
            ⟨fun i lo hlo => hb.lower lo (mem_of_checkedSide hlower hlo),
              fun i hi hhi => hb.upper hi (mem_of_checkedSide hupper hhi)⟩
          have hcrossing : (⟨lower.finitePart, upper.finitePart⟩ : Box α n).crossing? =
              (⟨lower, upper⟩ : Box α n).crossing? :=
            hbox.crossing?_finitePart
          simp only [Except.map, bind, Except.bind, hcrossing]
          cases (⟨lower, upper⟩ : Box α n).crossing? with
          | some fault => rfl
          | none => rfl

namespace Config

variable {c : Config α}

/-- Without its infinite limits a choice fits exactly if it fits with them, and if not, for the same
reason. -/
theorem validate_withFiniteBounds (hb : c.bounds.Feasible) (n : Nat) :
    c.withFiniteBounds.validate n = (c.validate n).map Box.finitePart := by
  unfold validate withFiniteBounds
  dsimp only
  rw [hb.validate_finitePart]
  split
  · rfl
  · split
    · cases checkedTolerance .parameters c.parameterTolerance with
      | error fault => rfl
      | ok _ =>
          cases checkedTolerance .objective c.objectiveTolerance with
          | error fault => rfl
          | ok _ => rfl
    · rfl

end Config

omit [LawfulInfinity α] in
theorem Bounds.Feasible.box {b : Bounds α} (hb : b.Feasible) {box : Box α n}
    (hvalid : b.validate n = .ok box) : box.Feasible := by
  obtain ⟨hlower, hupper, _⟩ := checked_of_validate hvalid
  exact ⟨fun i lo hlo => hb.lower lo (mem_of_checkedSide hlower hlo),
    fun i hi hhi => hb.upper hi (mem_of_checkedSide hupper hhi)⟩

/-- A trail is the same without the infinite limits of its box. -/
theorem Setting.iterate_finitePart {m : Nat} {c : Setting α n} (hbox : c.box.Feasible)
    (remaining i : Nat) (s : State α m n) :
    ({ c with box := c.box.finitePart } : Setting α n).iterate remaining i s =
      c.iterate remaining i s := by
  have hattempt : ∀ j (s' : State α m n),
      ({ c with box := c.box.finitePart } : Setting α n).attempt j s' = c.attempt j s' := by
    intro j s'
    refine attempt_congr rfl ?_ fun _ _ => rfl
    unfold trial?
    congr 1
    funext step
    exact hbox.clip_finitePart _
  refine (iterate_congr ?_ _ ?_).2 (Nat.lt_succ_self _)
  · rfl
  · exact fun j s' _ _ _ => hattempt (j + i) s'

/-- A solve is the same without the infinite limits, if they do not exclude every number. -/
theorem minimize_withFiniteBounds {c : Config α} (hb : c.bounds.Feasible) (problem : Problem α n)
    (x : Vector α n) : minimize c.withFiniteBounds problem x = minimize c problem x := by
  have hvalidate := Config.validate_withFiniteBounds hb n
  cases hvalid : c.validate n with
  | error fault =>
      rw [hvalid] at hvalidate
      rw [minimize_eq_invalid_iff.mpr hvalid, minimize_eq_invalid_iff.mpr hvalidate]
  | ok box =>
      rw [hvalid] at hvalidate
      rcases minimize_aligned hvalid hvalidate rfl rfl with hsame | ⟨m, start, hwhole, hfinite⟩
      · exact hsame
      · have hbox := hb.box (Config.validate_bounds hvalid)
        have htrail := Setting.iterate_finitePart (c := c.setting problem box) hbox
          c.maxIterations 1 start
        rw [hwhole, hfinite]
        exact congrArg (Course.iterated m start) htrail

/-- A configuration can be written and read again, provided that its finite numbers read back. It
cannot be read exactly if the damping scale or a tolerance is not finite. Otherwise all its fields
are read as they were written, except that a limit that is not finite leaves its component free, and
writing and reading it again changes nothing more. A solve is the same with what was read, unless
some limit excludes every number. -/
theorem Config.ofText_text [JsonNumber α] [LawfulJsonNumber α] [NumberText α] (c : Config α)
    (hc : c.ReadsBack) :
    ((∃ fault : Fault α, ofText c.text = .error fault) ↔ ¬c.Legible) ∧
    (c.Legible →
      ofText c.text = .ok c.withFiniteBounds ∧
      ofText c.withFiniteBounds.text = .ok c.withFiniteBounds ∧
      (c.bounds.Feasible → ∀ (n : Nat) (problem : Problem α n) (x : Vector α n),
        let read := c.withFiniteBounds
        (minimize read problem x).calls = (minimize c problem x).calls ∧
          (minimize read problem x).outcome read.recordTrace =
            (minimize c problem x).outcome c.recordTrace ∧
          Display.lines read (minimize read problem x) =
            Display.lines c (minimize c problem x))) := by
  refine ⟨⟨?_, ?_⟩, ?_⟩
  · rintro ⟨fault, hfault⟩ hlegible
    rw [ofText_text_of_legible hc hlegible] at hfault
    cases hfault
  · exact fun hillegible => ⟨_, ofText_text_of_illegible hc hillegible⟩
  · intro hlegible
    have hagain : c.withFiniteBounds.Legible :=
      ⟨hlegible.tau, hlegible.parameterTolerance, hlegible.objectiveTolerance⟩
    have htwice := ofText_text_of_legible hc.withFiniteBounds hagain
    rw [withFiniteBounds_twice] at htwice
    refine ⟨ofText_text_of_legible hc hlegible, htwice, ?_⟩
    intro hb n problem x read
    have hsame : minimize read problem x = minimize c problem x :=
      minimize_withFiniteBounds hb problem x
    rw [hsame]
    exact ⟨rfl, rfl, rfl⟩

/-- An infinite limit on its own side is lost, and no solve misses it. -/
theorem Config.ofText_text_with_infinite_limits :
    let c : Config Float :=
      { Config.standard with bounds := ⟨[some (-1.0 / 0.0), some 0.5], [none, some (1.0 / 0.0)]⟩ }
    let read : Config Float := { c with bounds := ⟨[none, some 0.5], [none, none]⟩ }
    ofText c.text = .ok read ∧ ofText read.text = .ok read ∧
      ∀ (problem : Problem Float 2) (x : Vector Float 2),
        (minimize read problem x).calls = (minimize c problem x).calls := by
  intro c read
  have hminus : Scalar.isFinite (-1.0 / 0.0 : Float) = false := by decide +kernel
  have hinfinite : Scalar.isFinite (1.0 / 0.0 : Float) = false := by decide +kernel
  have hhalf : Scalar.isFinite (0.5 : Float) = true := by decide +kernel
  have hc : c.ReadsBack := by
    refine ⟨Json.readsBack_of_toFloat? (by decide +kernel),
      Json.readsBack_of_toFloat? (by decide +kernel),
      Json.readsBack_of_toFloat? (by decide +kernel), ?_, ?_, by decide⟩
    · intro x hx
      obtain rfl | rfl : x = -1.0 / 0.0 ∨ x = 0.5 := by simpa [c] using hx
      · exact Json.readsBack_of_not_finite hminus
      · exact Json.readsBack_of_toFloat? (by decide +kernel)
    · intro x hx
      obtain rfl : x = 1.0 / 0.0 := by simpa [c] using hx
      exact Json.readsBack_of_not_finite hinfinite
  have hlegible : c.Legible := ⟨by decide +kernel, by decide +kernel, by decide +kernel⟩
  have hfeasible : c.bounds.Feasible := by
    constructor
    · intro lo hlo _
      obtain rfl | rfl : lo = -1.0 / 0.0 ∨ lo = 0.5 := by simpa [c] using hlo
      · decide +kernel
      · simp_all
    · intro hi hhi _
      obtain rfl : hi = 1.0 / 0.0 := by simpa [c] using hhi
      decide +kernel
  have hread : c.withFiniteBounds = read := by
    simp [Config.withFiniteBounds, Bounds.finitePart, c, read,
      finiteLimit_some_of_not_finite hminus, finiteLimit_some_of_finite hhalf,
      finiteLimit_some_of_not_finite hinfinite]
  obtain ⟨hfirst, hsecond, hsolve⟩ := (ofText_text c hc).2 hlegible
  rw [hread] at hfirst hsecond hsolve
  exact ⟨hfirst, hsecond, fun problem x => (hsolve hfeasible 2 problem x).1⟩

end LeastSquares
