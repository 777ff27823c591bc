import LeastSquares.Solution

/-! # Tables and summaries

The lines that a solve prints at each level: a table of the iterations, why the solve ended, and
the objective it ended with. The table is printed as far as the solve came, the summary only if it
did not fail.
-/

namespace LeastSquares

variable {α : Type} {m n : Nat}

/-- A text pushed to the right of a column. -/
def rightAligned (width : Nat) (text : String) : String :=
  String.ofList (List.replicate (width - text.length) ' ' ++ text.toList)

namespace Display

/-- The cells of a row of the table at a level that prints one. -/
def tableRow (level : DisplayLevel) (iteration cost rho mu nu : String) : String :=
  let row := rightAligned 5 iteration ++ "  " ++ rightAligned 15 cost
  if .iterDetailed ≤ level then
    row ++ "  " ++ rightAligned 10 rho ++ "  " ++ rightAligned 10 mu ++ "  " ++ rightAligned 10 nu
  else row

def header (level : DisplayLevel) : String := tableRow level "Iters" "F(x)" "rho" "mu" "nu"

variable [Scalar α] [NumberText α]

def row (level : DisplayLevel) (iteration : Nat) (cost rho mu nu : α) : String :=
  tableRow level (toString iteration) (NumberText.significant 9 cost)
    (NumberText.significant 4 rho) (NumberText.significant 4 mu) (NumberText.significant 4 nu)

/-- Why the solve ended, with the tolerance that was met if there is one. -/
def reasonText (config : Config α) : StopReason → String
  | .parametersSettled =>
    StopReason.parametersSettled.description ++ " (" ++
      NumberText.scientific config.parameterTolerance ++ ")"
  | .objectiveSettled =>
    StopReason.objectiveSettled.description ++ " (" ++
      NumberText.scientific config.objectiveTolerance ++ ")"
  | reason => reason.description

def summary (config : Config α) (s : Solution α n) : List String :=
  (if .final ≤ config.display then
    ["Terminate in " ++ toString s.iterations ++ " iterations: " ++ reasonText config s.reason ++
      "."]
  else []) ++
  (if .finalDetailed ≤ config.display then
    ["Final objective: " ++ NumberText.significant 9 s.cost ++ ", function evaluations: " ++
      toString s.evaluations]
  else [])

/-- The row of the start, which has no gain ratio yet. -/
def startRow (level : DisplayLevel) (start : State α m n) : String :=
  row level 0 start.current.cost Scalar.zero start.damping.mu start.damping.nu

def recordRow (level : DisplayLevel) (r : Record α) : String :=
  row level r.iteration r.cost r.rho r.mu r.nu

/-- What stands above the rows of the attempts, at the levels that have a table. -/
def opening (level : DisplayLevel) (start : State α m n) : List String :=
  if .iter ≤ level then [header level, startRow level start] else []

/-- The rows of some records, at the levels that have a table. -/
def rows (level : DisplayLevel) (records : List (Record α)) : List String :=
  if .iter ≤ level then records.map (recordRow level) else []

/-- The table as far as some attempts have brought it: a header, a row for the start and a row for
each of them. -/
def progress (level : DisplayLevel) (start : State α m n) (done : List (Attempt α m n)) :
    List String :=
  opening level start ++ rows level (Attempt.records 1 done)

/-- The table of a solve, which has none before the iterations have begun. -/
def table (level : DisplayLevel) : Course α n → List String
  | .iterated _ start trail => progress level start trail.attempts
  | _ => []

def lines (config : Config α) (c : Course α n) : List String :=
  table config.display c ++
    match c.outcome config.recordTrace with
    | .error _ => []
    | .ok solution => summary config solution

end Display

namespace Solution

/-- A vector as text; of a long one only the first and the last five components are shown. -/
def pointText [NumberText α] (point : List α) : String :=
  let shown :=
    if point.length < 500 then point.map NumberText.plain
    else
      (point.take 5).map NumberText.plain ++ ["..."] ++
        (point.drop (point.length - 5)).map NumberText.plain
  "[" ++ ", ".intercalate shown ++ "]"

def text [NumberText α] (s : Solution α n) : String :=
  "Optimization Result:\n" ++
    "  Success: " ++ toString s.converged ++ "\n" ++
    "  Stop reason: " ++ s.reason.description ++ "\n" ++
    "  Cost: " ++ NumberText.significant 7 s.cost ++ "\n" ++
    "  Iterations: " ++ toString s.iterations ++ "\n" ++
    "  Function evaluations: " ++ toString s.evaluations ++ "\n" ++
    "  Parameters: " ++ pointText s.point.toList ++ "\n"

end Solution

end LeastSquares
