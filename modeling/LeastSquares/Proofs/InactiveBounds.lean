import Mathlib
import LeastSquares.Proofs.Alignment
import LeastSquares.Proofs.Clipping

/-! # Bounds that are never met

Bounds act on a solve only by moving a point that does not keep to them. A solve whose points keep
to the bounds, though nothing makes them, is therefore the solve within the bounds, and otherwise
the two part at the first point that does not. Comparisons are as lawful as those of doubles, and
the rest of the arithmetic is arbitrary.
-/

namespace LeastSquares

variable {α : Type} [Scalar α] {m n : Nat}

open Scalar

namespace Setting

variable {c : Setting α n} {box : Box α n} {remaining i : Nat} {s : State α m n}

/-- What a box does to a trial point that was free before. -/
theorem trial?_of_free (hfree : c.box.Free) :
    ({ c with box } : Setting α n).trial? s = (c.trial? s).map box.clip := by
  rw [trial?, trial?, Option.map_map]
  congr 1
  funext step
  exact congrArg box.clip (hfree.clip_eq _).symm

/-- As long as a box leaves the points of a free trail where they are, the trail within the box is
the same. -/
theorem iterate_congr_box (hfree : c.box.Free) (k : Nat)
    (hinactive : ∀ j p, j < k → (c.iterate remaining i s).trials[j]? = some p → box.clip p = p) :
    (({ c with box } : Setting α n).iterate remaining i s).attempts.take k =
        (c.iterate remaining i s).attempts.take k ∧
      ((c.iterate remaining i s).attempts.length < k →
        ({ c with box } : Setting α n).iterate remaining i s = c.iterate remaining i s) := by
  refine iterate_congr ?_ k ?_
  · rfl
  intro j s' hj hs' hon
  refine attempt_congr rfl ?_ fun _ _ => rfl
  rw [trial?_of_free hfree]
  cases hp : c.trial? s' with
  | none => rfl
  | some p =>
      have htrial := (c.runs_iterate remaining i s).trials_eq_some_iff.mpr ⟨s', hs', hon, hp⟩
      exact congrArg some (hinactive j p hj htrial)

/-- The first point of a free trail that a box moves is replaced by the clipped one. -/
theorem trials_of_moved (hfree : c.box.Free) {k : Nat} {p : Vector α n}
    (hinactive : ∀ j p, j < k → (c.iterate remaining i s).trials[j]? = some p → box.clip p = p)
    (hp : (c.iterate remaining i s).trials[k]? = some p) :
    (∀ j, j < k → (({ c with box } : Setting α n).iterate remaining i s).trials[j]? =
        (c.iterate remaining i s).trials[j]?) ∧
      (({ c with box } : Setting α n).iterate remaining i s).trials[k]? = some (box.clip p) := by
  obtain ⟨htake, _⟩ := iterate_congr_box hfree k hinactive
  obtain ⟨s', hs', hon, htrial⟩ :=
    (c.runs_iterate remaining i s).trials_eq_some_iff.mp hp
  constructor
  · intro j hj
    refine Trail.trials_congr htake hj ?_
    have hlength := (List.getElem?_eq_some_iff.mp hs').1
    rw [Trail.length_states] at hlength
    omega
  · refine (runs_iterate _ remaining i s).trials_eq_some_iff.mpr
      ⟨s', ?_, hon.congr htake, ?_⟩
    · rw [Trail.states_congr s htake (Nat.le_refl k), hs']
    · rw [trial?_of_free hfree, htrial]
      rfl

end Setting

/-- The same choices without bounds. -/
def Config.withoutBounds (config : Config α) : Config α := { config with bounds := .unlimited }

theorem Config.validate_withoutBounds {config : Config α} {box : Box α n}
    (hvalid : config.validate n = .ok box) :
    config.withoutBounds.validate n = .ok ⟨none, none⟩ := by
  obtain ⟨hn, hscale, hparameters, hobjective, _⟩ := (config.validate_eq_ok_iff n box).mp hvalid
  exact (config.withoutBounds.validate_eq_ok_iff n _).mpr
    ⟨hn, hscale, hparameters, hobjective, Bounds.validate_unlimited n⟩

/-- No limit is a number. -/
def Bounds.Blank (b : Bounds α) : Prop :=
  ∀ limit, some limit ∈ b.lower ++ b.upper → isNaN limit = true

theorem Bounds.Blank.holds {b : Bounds α} (hb : b.Blank) (x : Vector α n) : b.Holds x := by
  intro i
  constructor
  · intro limit hlimit hnumber _
    have hmem := List.mem_of_getElem? (Option.join_eq_some_iff.mp hlimit)
    rw [hb limit (List.mem_append_right _ hmem)] at hnumber
    cases hnumber
  · intro limit hlimit hnumber _
    have hmem := List.mem_of_getElem? (Option.join_eq_some_iff.mp hlimit)
    rw [hb limit (List.mem_append_left _ hmem)] at hnumber
    cases hnumber

/-- All points that a course evaluates after its start keep to some bounds. -/
def Course.KeepsTo (course : Course α n) (b : Bounds α) : Prop :=
  ∀ (k : Nat) (call : Call α n), course.calls[k + 1]? = some call → b.Holds call.point

/-- Call `k + 1` is the first after the start whose point does not keep to the bounds. -/
structure Course.FirstOutside (course : Course α n) (b : Bounds α) (k : Nat)
    (call : Call α n) : Prop where
  call_eq : course.calls[k + 1]? = some call
  outside : ¬b.Holds call.point
  inside : ∀ (j : Nat) (earlier : Call α n), j < k → course.calls[j + 1]? = some earlier →
    b.Holds earlier.point

theorem Course.exists_firstOutside {course : Course α n} {b : Bounds α}
    (hleaves : ¬course.KeepsTo b) : ∃ k call, course.FirstOutside b k call := by
  classical
  simp only [KeepsTo, not_forall] at hleaves
  obtain ⟨call, hcall, houtside⟩ := Nat.find_spec hleaves
  refine ⟨Nat.find hleaves, call, hcall, houtside, ?_⟩
  intro j earlier hj hearlier
  by_contra hout
  exact Nat.find_min hleaves hj ⟨earlier, hearlier, hout⟩

section Solve

variable [LawfulOrder α] {config : Config α} {problem : Problem α n} {x : Vector α n}
  {box : Box α n}

/-- A box leaves the points of a course where they are, if they keep to the bounds. -/
theorem clip_eq_of_holds (hvalid : config.validate n = .ok box) {k : Nat}
    {start : State α m n} {t : Trail α m n}
    (hholds : ∀ call : Call α n, (Course.iterated m start t).calls[k + 1]? = some call →
      config.bounds.Holds call.point) {p : Vector α n} (hp : t.trials[k]? = some p) :
    box.clip p = p := by
  have hbounds := Config.validate_bounds hvalid
  refine (Bounds.clip_eq_iff hbounds p).mpr (hholds ⟨true, p⟩ ?_)
  rw [Course.calls_succ_eq, hp]
  rfl

/-- A solve is not changed by bounds that all its points keep to. -/
theorem minimize_eq_withoutBounds (hvalid : config.validate n = .ok box)
    (hkeeps : (minimize config.withoutBounds problem x).KeepsTo config.bounds) :
    minimize config problem x = minimize config.withoutBounds problem x := by
  rcases minimize_aligned (Config.validate_withoutBounds hvalid) hvalid rfl rfl with
    hsame | ⟨m, start, hfree, hbounded⟩
  · exact hsame
  · rw [hfree] at hkeeps
    rw [hfree, hbounded]
    refine congrArg (Course.iterated m start)
      ((Setting.iterate_congr_box (c := config.withoutBounds.setting problem ⟨none, none⟩)
        (fun _ => ⟨rfl, rfl⟩) _ ?_).2 (Nat.lt_succ_self _))
    intro j p _ hp
    exact clip_eq_of_holds hvalid (hkeeps j) hp

/-- Where a solve first leaves the bounds, the solve within them goes to the clipped point. -/
theorem calls_of_firstOutside (hvalid : config.validate n = .ok box) {k : Nat} {call : Call α n}
    (hfirst : (minimize config.withoutBounds problem x).FirstOutside config.bounds k call) :
    (∀ j : Nat, j ≤ k → (minimize config problem x).calls[j]? =
        (minimize config.withoutBounds problem x).calls[j]?) ∧
      (minimize config problem x).calls[k + 1]? = some ⟨true, box.clip call.point⟩ := by
  have hbounds := Config.validate_bounds hvalid
  obtain ⟨hcall, houtside, hinside⟩ := hfirst
  rcases minimize_aligned (Config.validate_withoutBounds hvalid) hvalid rfl rfl with
    hsame | ⟨m, start, hfree, hbounded⟩
  · -- Within the bounds no point leaves them.
    rw [← hsame] at hcall
    obtain ⟨y, hy⟩ := exists_clip_of_calls_succ hvalid hcall
    rw [hy] at houtside
    exact absurd (config.bounds.holds_clip hbounds y) houtside
  · rw [hfree] at hcall hinside
    rw [hfree, hbounded]
    rw [Course.calls_succ_eq, Option.map_eq_some_iff] at hcall
    obtain ⟨p, hp, rfl⟩ := hcall
    obtain ⟨hbefore, hmoved⟩ := Setting.trials_of_moved (fun _ => ⟨rfl, rfl⟩)
      (fun j q hj hq => clip_eq_of_holds hvalid (fun call => hinside j call hj) hq) hp
    constructor
    · intro j hj
      cases j with
      | zero => rfl
      | succ j =>
          rw [Course.calls_succ_eq, Course.calls_succ_eq]
          exact congrArg _ (hbefore j hj)
    · rw [Course.calls_succ_eq]
      exact congrArg _ hmoved

end Solve

/-- As long as the points that a solve evaluates after its start keep to bounds that it does not
have, having them makes no difference: the course and the lines are the same. Limits that are not
numbers never make a difference. If some point does not keep to the bounds, the solves make the same
calls up to the first such point, and the one with the bounds evaluates the clipped point
instead. Only the bounds need fit: what else does not is reported in either case. -/
theorem minimize_inactive_bounds [LawfulOrder α] [NumberText α] (config : Config α)
    (problem : Problem α n) (x : Vector α n) {box : Box α n}
    (hbounds : config.bounds.validate n = .ok box) :
    let bounded := minimize config problem x
    let free := minimize config.withoutBounds problem x
    (free.KeepsTo config.bounds ∨ config.bounds.Blank →
      bounded = free ∧
        Display.lines config bounded = Display.lines config.withoutBounds free) ∧
    (¬free.KeepsTo config.bounds →
      ∃ k call, free.FirstOutside config.bounds k call ∧
        (∀ j : Nat, j ≤ k → bounded.calls[j]? = free.calls[j]?) ∧
        bounded.calls[k + 1]? = some ⟨true, box.clip call.point⟩ ∧
        box.clip call.point ≠ call.point) := by
  intro bounded free
  rcases config.validate_eq_bounds_or_error n with hrest | ⟨fault, hfault⟩
  · have hvalid : config.validate n = .ok box := (hrest config.bounds).trans hbounds
    constructor
    · intro hinactive
      have hkeeps : free.KeepsTo config.bounds := by
        rcases hinactive with hkeeps | hblank
        · exact hkeeps
        · exact fun _ call _ => hblank.holds call.point
      have hsame : bounded = free := minimize_eq_withoutBounds hvalid hkeeps
      refine ⟨hsame, ?_⟩
      rw [hsame]
      rfl
    · intro hleaves
      obtain ⟨k, call, hfirst⟩ := Course.exists_firstOutside hleaves
      obtain ⟨hbefore, hmoved⟩ := calls_of_firstOutside hvalid hfirst
      refine ⟨k, call, hfirst, hbefore, hmoved, ?_⟩
      intro hclip
      exact hfirst.outside ((Bounds.clip_eq_iff hbounds call.point).mp hclip)
  · -- Something else does not fit, and no point is evaluated with or without the bounds.
    have hbounded : bounded = .invalid fault := minimize_eq_invalid_iff.mpr (hfault config.bounds)
    have hfree : free = .invalid fault := minimize_eq_invalid_iff.mpr (hfault .unlimited)
    rw [hbounded, hfree]
    exact ⟨fun _ => ⟨rfl, rfl⟩, fun hleaves => absurd nofun hleaves⟩

/-- The first step leaves an upper limit, so the solves part there. Without that limit, and with one
that is not a number, they are the same. -/
theorem minimize_parts_at_first_outside :
    let bounded : Config Float :=
      { Config.standard with
        bounds := ⟨[], [some 2.0, some (0.0 / 0.0)]⟩, maxIterations := 2 }
    let blank : Config Float :=
      { Config.standard with bounds := ⟨[], [none, some (0.0 / 0.0)]⟩, maxIterations := 2 }
    let problem : Problem Float 2 := fun _ x _ =>
      .ok ⟨(minus x #v[4.0, 5.0]).toArray, some (.ofMat (.ofFn ![![1.0, 0.0], ![0.0, 1.0]]))⟩
    let free := minimize bounded.withoutBounds problem #v[0.0, 0.0]
    ¬free.KeepsTo bounded.bounds ∧
      (∃ k call, free.FirstOutside bounded.bounds k call ∧
        (minimize bounded problem #v[0.0, 0.0]).calls[k + 1]? ≠ some call) ∧
      blank.bounds.Blank ∧
      minimize blank problem #v[0.0, 0.0] = minimize blank.withoutBounds problem #v[0.0, 0.0] := by
  intro bounded blank problem free
  have hcomponent : (free.calls[1]?.map fun call : Call Float 2 =>
      decide ((2.0 : Float) < call.point.get 0)) = some true := by
    decide +kernel +revert
  have hbounds : bounded.bounds.validate 2 = .ok ⟨none, some #v[some 2.0, some (0.0 / 0.0)]⟩ := rfl
  have hbounds' : blank.bounds.validate 2 = .ok ⟨none, some #v[none, some (0.0 / 0.0)]⟩ := rfl
  have hblank : blank.bounds.Blank := by
    intro limit hlimit
    obtain rfl : limit = 0.0 / 0.0 := by simpa [blank] using hlimit
    decide
  have hleaves : ¬free.KeepsTo bounded.bounds := by
    intro hkeeps
    obtain ⟨call, hcall, habove⟩ := Option.map_eq_some_iff.mp hcomponent
    obtain ⟨hle, hnot⟩ := LawfulOrder.lt_iff.mp (of_decide_eq_true habove)
    obtain ⟨hlimit, hnumber⟩ := isNaN_eq_false_of_le hle
    exact hnot ((hkeeps 0 call hcall 0).le_upper 2.0 rfl hlimit hnumber)
  obtain ⟨_, hparts⟩ := minimize_inactive_bounds bounded problem #v[0.0, 0.0] hbounds
  obtain ⟨k, call, hfirst, _, hclip, hmoved⟩ := hparts hleaves
  refine ⟨hleaves, ⟨k, call, hfirst, ?_⟩, hblank, ?_⟩
  · intro hsame
    exact hmoved (congrArg Call.point (Option.some.inj (hclip.symm.trans hsame)))
  · exact ((minimize_inactive_bounds blank problem #v[0.0, 0.0] hbounds').1 (Or.inr hblank)).1

end LeastSquares
