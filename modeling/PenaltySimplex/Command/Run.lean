import PenaltySimplex.Command.Arguments
import PenaltySimplex.Command.Report
import PenaltySimplex.Command.Session
import PenaltySimplex.Format.Parser
import PenaltySimplex.Format.Reference

/-!
# PenaltySimplex.Command.Run

The sessions of the commands.

`solve` reads and parses its file, solves, reads and parses the reference if one is named, writes
the solution if a path is named and there are values, and then prints its report. The first read,
parse or write that fails ends the run with code 1 and one message. Otherwise the code is 0 if the
solution is optimal and matches the reference.

`check` analyzes the equations without solving. A usage error has code 2.
-/

namespace PenaltySimplex.Command

open Format

def readWith {β : Type} (path : String) (parse : String → Except ParseError β)
    (next : β → Session) : Session :=
  .read path fun
    | .error e => .fail ("Error reading file: " ++ e.message)
    | .ok source =>
      match parse source with
      | .error e => .fail s!"Parse error in {path}: {e.message}"
      | .ok x => next x

def compareWith (r : SolveRequest) (solution : Solution Float)
    (next : Option Compared → Session) : Session :=
  match r.expected with
  | none => next none
  | some path =>
    readWith path parseReference fun reference =>
      next (some ⟨reference, verify solution reference r.tolerance⟩)

/-- Writes the solution, if a path is named and there are values and an objective value. -/
def writeSolution (r : SolveRequest) (solution : Solution Float) (next : Session) : Session :=
  match r.output, solution.values, solution.objectiveValue with
  | some path, some values, some objective =>
    .write path (writeReference objective values) fun
      | .error e => .fail s!"Error writing {path}: {e.message}"
      | .ok () => next
  | _, _, _ => next

def finish (r : SolveRequest) (report : SolveReport) : Session :=
  let code := if report.succeeds then 0 else 1
  match r.format with
  | .pretty => .exit ⟨code, report.text, ""⟩
  | .json => .exit ⟨code, report.json.pretty ++ "\n", ""⟩

def solveSession (r : SolveRequest) : Session :=
  readWith r.file parseInput fun input =>
    match (r.settings.solver.solve input.toProblem).value with
    | .error e => .fail ("Solver error: " ++ e.message)
    | .ok solution =>
      compareWith r solution fun compared =>
        writeSolution r solution <|
          finish r { file := r.file, input, solution, compared }

/-- The numbers of the rows kept, counted from one. -/
def rowList (kept : List Nat) : String :=
  "[" ++ ", ".intercalate (kept.map fun i => s!"{i + 1}") ++ "]"

def checkLines (file : String) (input : Input) (standard reduced : StandardForm Float)
    (kept : List Nat) : List String :=
  [s!"✓ {file} is consistent",
   s!"  {input.numConstraints} constraints, {input.numVariables} variables",
   s!"  {standard.numColumns} standard-form columns",
   s!"  {reduced.numRows} independent rows kept: {rowList kept}"]

def checkSession (r : CheckRequest) : Session :=
  readWith r.file parseInput fun input =>
    match input.toProblem.toStandardForm with
    | .error e => .fail s!"✗ {r.file}: {e.message}"
    | .ok standard =>
      match ((Analyzer.ofTolerance r.rankTolerance true).analyze standard).value with
      | .feasible reduced kept =>
        .exit ⟨0, lines (checkLines r.file input standard reduced kept), ""⟩
      | .infeasible residual =>
        .exit ⟨1, "", lines
          [s!"✗ {r.file} is infeasible",
           s!"  b is not in the column space of A (residual {Decimal.scientificTo 3 residual})"]⟩

def usage : String := lines
  ["Solve linear programs with the Big-M tableau simplex method",
   "",
   "Usage: bigm solve [FLAGS] FILE",
   "       bigm check [--rank-tolerance X] FILE"]

def run (args : List String) : Session :=
  match readRequest args with
  | none => .exit ⟨2, "", usage⟩
  | some .help => .exit ⟨0, usage, ""⟩
  | some (.solve r) => solveSession r
  | some (.check r) => checkSession r

end PenaltySimplex.Command
