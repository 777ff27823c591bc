import Mathlib
import LeastSquares.Proofs.Failure

/-! # Cumulative display levels

Each level prints all that the levels below it do: their lines in their order, of which the lines of
a table may be continued. The level is looked at in four places, for the table, for the length of
its lines and for each of the two lines of the summary, and these agree with the order of the levels
whatever a solve does. The arithmetic is arbitrary.
-/

namespace LeastSquares

variable {α : Type} {m n : Nat}

theorem DisplayLevel.le_trans {a b c : DisplayLevel} (hab : a ≤ b) (hbc : b ≤ c) : a ≤ c :=
  Nat.le_trans hab hbc

/-- The same choices with another level of what is printed. -/
def Config.displaying (config : Config α) (level : DisplayLevel) : Config α :=
  { config with display := level }

namespace Display

/-- A line goes on where another one ends. -/
def Continues (line longer : String) : Prop := ∃ rest, longer = line ++ rest

theorem Continues.refl (line : String) : Continues line line := ⟨"", String.append_empty.symm⟩

instance : Std.Refl Continues := ⟨Continues.refl⟩

def blanks (count : Nat) : String := String.ofList (List.replicate count ' ')

theorem rightAligned_eq (width : Nat) (text : String) :
    rightAligned width text = blanks (width - text.length) ++ text := by
  rw [rightAligned, String.ofList_append, String.ofList_toList]
  rfl

/-- The beginning of a row as it reads: two texts, with blanks before each that fill it up to five
and to fifteen characters, and two blanks between. -/
def leading (iteration cost : String) : String :=
  blanks (5 - iteration.length) ++ iteration ++ "  " ++ (blanks (15 - cost.length) ++ cost)

theorem tableRow_of_not_detailed {level : DisplayLevel} (hlevel : ¬.iterDetailed ≤ level)
    (iteration cost rho mu nu : String) :
    tableRow level iteration cost rho mu nu = leading iteration cost := by
  unfold tableRow leading
  rw [if_neg hlevel, rightAligned_eq, rightAligned_eq]

theorem leading_continues_tableRow (level : DisplayLevel) (iteration cost rho mu nu : String) :
    Continues (leading iteration cost) (tableRow level iteration cost rho mu nu) := by
  by_cases hlevel : .iterDetailed ≤ level
  · refine ⟨"  " ++ rightAligned 10 rho ++ "  " ++ rightAligned 10 mu ++ "  " ++
      rightAligned 10 nu, ?_⟩
    unfold tableRow leading
    rw [if_pos hlevel, rightAligned_eq 5, rightAligned_eq 15]
    simp only [String.append_assoc]
  · rw [tableRow_of_not_detailed hlevel]
    exact .refl _

/-- A higher level adds cells to a row and takes none away. -/
theorem tableRow_continues {a b : DisplayLevel} (hab : a ≤ b)
    (iteration cost rho mu nu : String) :
    Continues (tableRow a iteration cost rho mu nu) (tableRow b iteration cost rho mu nu) := by
  by_cases ha : .iterDetailed ≤ a
  · have hb : .iterDetailed ≤ b := DisplayLevel.le_trans ha hab
    have hsame : tableRow b iteration cost rho mu nu = tableRow a iteration cost rho mu nu := by
      simp only [tableRow, if_pos ha, if_pos hb]
    rw [hsame]
    exact .refl _
  · rw [tableRow_of_not_detailed ha]
    exact leading_continues_tableRow b iteration cost rho mu nu

theorem header_continues (level : DisplayLevel) :
    Continues "Iters             F(x)" (header level) := by
  have hleading : leading "Iters" "F(x)" = "Iters             F(x)" := by decide
  rw [← hleading]
  exact leading_continues_tableRow level ..

variable [Scalar α] [NumberText α]

/-- A line of a table shows an iteration and the cost of a state, and at the lower of the two levels
nothing else. -/
structure ShowsState (level : DisplayLevel) (i : Nat) (s : State α m n) (line : String) : Prop where
  begins : Continues (leading (toString i) (NumberText.significant 9 s.current.cost)) line
  eq_of_iter : level = .iter →
    line = leading (toString i) (NumberText.significant 9 s.current.cost)

omit [Scalar α] in
theorem row_showsState (level : DisplayLevel) (i : Nat) (s : State α m n) (rho mu nu : α) :
    ShowsState level i s (row level i s.current.cost rho mu nu) where
  begins := leading_continues_tableRow level ..
  eq_of_iter := by
    rintro rfl
    exact tableRow_of_not_detailed (by decide) ..

/-- A table has a header, a row for the start and a row for each record. -/
theorem table_eq_cons {level : DisplayLevel} (hlevel : .iter ≤ level) (start : State α m n)
    (trail : Trail α m n) :
    table level (.iterated m start trail) =
      header level :: startRow level start :: trail.records.map (recordRow level) := by
  unfold table progress opening rows
  dsimp only
  rw [if_pos hlevel, if_pos hlevel]
  rfl

theorem table_eq_nil {level : DisplayLevel} (hlevel : ¬.iter ≤ level) (course : Course α n) :
    table level course = [] := by
  cases course with
  | iterated m start trail =>
      unfold table progress opening rows
      dsimp only
      rw [if_neg hlevel, if_neg hlevel, List.append_nil]
  | _ => rfl

/-- There is a row for each iteration, and it shows the cost of the state that the iteration led
to. -/
theorem exists_row (level : DisplayLevel) (start : State α m n) {trail : Trail α m n} {i : Nat}
    (hi : i ≤ trail.attempts.length) :
    ∃ s line, (trail.states start)[i]? = some s ∧
      (startRow level start :: trail.records.map (recordRow level))[i]? = some line ∧
      ShowsState level i s line := by
  cases i with
  | zero => exact ⟨start, _, rfl, rfl, row_showsState ..⟩
  | succ k =>
      obtain ⟨a, ha⟩ : ∃ a, trail.attempts[k]? = some a := ⟨_, List.getElem?_eq_getElem hi⟩
      refine ⟨a.next, recordRow level (a.record (k + 1)), Trail.states_succ ha, ?_,
        row_showsState ..⟩
      rw [List.getElem?_cons_succ, List.getElem?_map, Trail.getElem?_records, ha]
      rfl

/-- At the levels that have a table, it has the same lines at all of them, continued or not. -/
theorem table_continues {a b : DisplayLevel} (ha : .iter ≤ a) (hab : a ≤ b)
    (course : Course α n) :
    List.Forall₂ Continues (table a course) (table b course) := by
  cases course with
  | iterated m start trail =>
      rw [table_eq_cons ha, table_eq_cons (DisplayLevel.le_trans ha hab)]
      refine .cons (tableRow_continues hab ..) (.cons (tableRow_continues hab ..) ?_)
      rw [List.forall₂_map_left_iff, List.forall₂_map_right_iff]
      exact List.forall₂_same.mpr fun r _ => tableRow_continues hab ..
  | _ => exact .nil

theorem table_embeds {a b : DisplayLevel} (hab : a ≤ b) (course : Course α n) :
    List.SublistForall₂ Continues (table a course) (table b course) := by
  by_cases ha : .iter ≤ a
  · exact List.sublistForall₂_iff.mpr ⟨_, table_continues ha hab course, List.Sublist.refl _⟩
  · rw [table_eq_nil ha]
    exact .nil

/-- The line that says why a solve ended. -/
def reasonLine (config : Config α) (s : Solution α n) : String :=
  "Terminate in " ++ toString s.iterations ++ " iterations: " ++ reasonText config s.reason ++ "."

/-- The line that says which objective a solve ended with. -/
def objectiveLine (s : Solution α n) : String :=
  "Final objective: " ++ NumberText.significant 9 s.cost ++ ", function evaluations: " ++
    toString s.evaluations

omit [Scalar α] in
/-- A tolerance is quoted alike at each level. -/
theorem reasonText_displaying (config : Config α) (level : DisplayLevel) (reason : StopReason) :
    reasonText (config.displaying level) reason = reasonText config reason := by
  cases reason <;> rfl

omit [Scalar α] in
theorem summary_displaying (config : Config α) (level : DisplayLevel) (s : Solution α n) :
    summary (config.displaying level) s =
      (if .final ≤ level then [reasonLine config s] else []) ++
        (if .finalDetailed ≤ level then [objectiveLine s] else []) := by
  unfold summary reasonLine objectiveLine
  rw [reasonText_displaying]
  rfl

omit [Scalar α] in
theorem summary_of_finalDetailed {level : DisplayLevel} (hlevel : .finalDetailed ≤ level)
    (config : Config α) (s : Solution α n) :
    summary (config.displaying level) s = [reasonLine config s, objectiveLine s] := by
  have hstep : DisplayLevel.final ≤ .finalDetailed := by decide
  rw [summary_displaying, if_pos (DisplayLevel.le_trans hstep hlevel), if_pos hlevel]
  rfl

omit [Scalar α] in
/-- A higher level adds lines to the summary and takes none away. -/
theorem summary_prefix {a b : DisplayLevel} (hab : a ≤ b) (config : Config α) (s : Solution α n) :
    summary (config.displaying a) s <+: summary (config.displaying b) s := by
  by_cases hdetailed : .finalDetailed ≤ a
  · rw [summary_of_finalDetailed hdetailed,
      summary_of_finalDetailed (DisplayLevel.le_trans hdetailed hab)]
  · rw [summary_displaying, summary_displaying, if_neg hdetailed, List.append_nil]
    by_cases hfinal : .final ≤ a
    · rw [if_pos hfinal, if_pos (DisplayLevel.le_trans hfinal hab)]
      exact List.prefix_append _ _
    · rw [if_neg hfinal]
      exact List.nil_prefix

/-- What is printed after the table: a summary if the solve did not fail, at the levels that have
one. -/
def closing (config : Config α) (course : Course α n) (level : DisplayLevel) : List String :=
  match course.outcome config.recordTrace with
  | .error _ => []
  | .ok s => summary (config.displaying level) s

theorem lines_displaying (config : Config α) (course : Course α n) (level : DisplayLevel) :
    lines (config.displaying level) course = table level course ++ closing config course level :=
  rfl

theorem closing_prefix {a b : DisplayLevel} (hab : a ≤ b) (config : Config α)
    (course : Course α n) : closing config course a <+: closing config course b := by
  unfold closing
  cases course.outcome config.recordTrace with
  | error fault => exact List.prefix_rfl
  | ok s => exact summary_prefix hab config s

/-- The levels that have a table close it alike. -/
theorem closing_iter_eq (config : Config α) (course : Course α n) :
    closing config course .iterDetailed = closing config course .iter := by
  have hiter : DisplayLevel.finalDetailed ≤ .iter := by decide
  have hdetailed : DisplayLevel.finalDetailed ≤ .iterDetailed := by decide
  unfold closing
  cases course.outcome config.recordTrace with
  | error fault => rfl
  | ok s =>
      dsimp only
      rw [summary_of_finalDetailed hiter, summary_of_finalDetailed hdetailed]

/-- From level to level lines are continued and added, and nothing else changes. -/
theorem lines_embed {a b : DisplayLevel} (hab : a ≤ b) (config : Config α)
    (course : Course α n) :
    List.SublistForall₂ Continues (lines (config.displaying a) course)
      (lines (config.displaying b) course) := by
  obtain ⟨kept, hkept, htable⟩ := List.sublistForall₂_iff.mp (table_embeds hab course)
  have hclosing := closing_prefix hab config course
  rw [lines_displaying, lines_displaying, List.sublistForall₂_iff]
  refine ⟨kept ++ closing config course a, ?_, htable.append hclosing.sublist⟩
  exact List.rel_append hkept (List.forall₂_same.mpr fun line _ => .refl line)

theorem lines_of_ok {config : Config α} {course : Course α n} {s : Solution α n}
    (houtcome : course.outcome config.recordTrace = .ok s) (level : DisplayLevel) :
    lines (config.displaying level) course =
      table level course ++ summary (config.displaying level) s := by
  rw [lines_displaying, closing, houtcome]

/-- The levels without a table print the summary, as far as they have one. -/
theorem lines_below_iter {config : Config α} {course : Course α n} {s : Solution α n}
    (houtcome : course.outcome config.recordTrace = .ok s) :
    lines (config.displaying .off) course = [] ∧
      lines (config.displaying .final) course = [reasonLine config s] ∧
      lines (config.displaying .finalDetailed) course = [reasonLine config s, objectiveLine s] := by
  have hoff : ¬DisplayLevel.iter ≤ .off := by decide
  have hfinal : ¬DisplayLevel.iter ≤ .final := by decide
  have hdetailed : ¬DisplayLevel.iter ≤ .finalDetailed := by decide
  rw [lines_of_ok houtcome, lines_of_ok houtcome, lines_of_ok houtcome, table_eq_nil hoff,
    table_eq_nil hfinal, table_eq_nil hdetailed]
  simp only [summary_displaying]
  exact ⟨rfl, rfl, rfl⟩

/-- What a solve that does not fail prints at a level with a table: nothing before the summary if
it stopped at its start, or else a header and the rows. -/
inductive Tabulated (config : Config α) (level : DisplayLevel) (s : Solution α n)
    (printed : List String) : Course α n → Prop
  | stationary {m : Nat} {start : Iterate α m n}
      (hprinted : printed = [reasonLine config s, objectiveLine s]) :
      Tabulated config level s printed (.stationary m start)
  | iterated {m : Nat} {start : State α m n} {trail : Trail α m n} (rows : List String)
      (hprinted : printed = header level :: rows ++ [reasonLine config s, objectiveLine s])
      (hheader : Continues "Iters             F(x)" (header level))
      (hrows : rows.length = s.iterations + 1) (hlength : printed.length = s.iterations + 4)
      (hrow : ∀ i ≤ s.iterations, ∃ state line,
        (trail.states start)[i]? = some state ∧ rows[i]? = some line ∧
          ShowsState level i state line) :
      Tabulated config level s printed (.iterated m start trail)

theorem lines_tabulated {config : Config α} {course : Course α n} {s : Solution α n}
    (houtcome : course.outcome config.recordTrace = .ok s) {level : DisplayLevel}
    (hlevel : .iter ≤ level) :
    Tabulated config level s (lines (config.displaying level) course) course := by
  have hstep : DisplayLevel.finalDetailed ≤ .iter := by decide
  rw [lines_of_ok houtcome, summary_of_finalDetailed (DisplayLevel.le_trans hstep hlevel)]
  rcases Course.solution_cases houtcome with ⟨m, it, rfl, _⟩ | ⟨m, start, trail, _, rfl, _, rfl⟩
  · exact .stationary rfl
  · have hrows : (startRow level start :: trail.records.map (recordRow level)).length =
        trail.attempts.length + 1 := by
      rw [List.length_cons, List.length_map, trail.length_records]
    rw [table_eq_cons hlevel]
    refine .iterated _ rfl (header_continues level) hrows ?_ fun i hi => exists_row level start hi
    rw [List.length_append, List.length_cons, hrows]
    rfl

end Display

open Display in
/-- Display levels are cumulative. A solve that does not fail prints nothing, its reason, and its
objective too at the three lowest levels; at the others these two lines close a table with a header
and a row for every iteration, which begins with its number and the cost that it led to, or they
stand alone if the solve stopped at its start. Failed or not, a solve prints the same table at both
levels that have one, each line of the lower being the beginning of that of the higher, and what it
prints at one level it prints at all levels above it too. -/
theorem lines_cumulative [Scalar α] [NumberText α] (config : Config α) (problem : Problem α n)
    (x : Vector α n) :
    let course := minimize config problem x
    let printed := fun level =>
      lines (config.displaying level) (minimize (config.displaying level) problem x)
    (∀ s, course.outcome config.recordTrace = .ok s →
      printed .off = [] ∧ printed .final = [reasonLine config s] ∧
        printed .finalDetailed = [reasonLine config s, objectiveLine s] ∧
        Tabulated config .iter s (printed .iter) course ∧
        Tabulated config .iterDetailed s (printed .iterDetailed) course) ∧
    (List.Forall₂ Continues (table .iter course) (table .iterDetailed course) ∧
      ∃ closing, printed .iter = table .iter course ++ closing ∧
        printed .iterDetailed = table .iterDetailed course ++ closing) ∧
    ∀ a b, a ≤ b → List.SublistForall₂ Continues (printed a) (printed b) := by
  intro course printed
  have hprinted : ∀ level, printed level = lines (config.displaying level) course := fun _ => rfl
  refine ⟨?_, ⟨table_continues (by decide) (by decide) course,
    closing config course .iter, rfl, ?_⟩, fun a b hab => lines_embed hab config course⟩
  · intro s houtcome
    obtain ⟨hoff, hfinal, hdetailed⟩ := lines_below_iter houtcome
    exact ⟨hoff, hfinal, hdetailed, lines_tabulated houtcome (by decide),
      lines_tabulated houtcome (by decide)⟩
  · rw [hprinted, lines_displaying, closing_iter_eq]

end LeastSquares
