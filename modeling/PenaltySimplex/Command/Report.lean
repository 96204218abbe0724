import PenaltySimplex.Format.Input
import PenaltySimplex.Json.Results
import PenaltySimplex.Solver

/-!
# PenaltySimplex.Command.Report

What a solve prints: a text for readers, or one JSON object with its keys in order.
-/

namespace PenaltySimplex.Command

open Decimal

structure Compared where
  reference : Reference Float
  result : Except VerifyError (Verification Float)

/-- Whether the comparison was possible and everything is within the tolerance. -/
def Compared.isMatch (c : Compared) : Bool :=
  match c.result with
  | .ok v => v.isMatch
  | .error _ => false

structure SolveReport where
  file : String
  input : Format.Input
  solution : Solution Float
  compared : Option Compared

def lines (ls : List String) : String :=
  String.join (ls.map (· ++ "\n"))

def assignmentLine (name : String) (value : Float) : String :=
  "  " ++ padRight 8 name ++ " " ++ padLeft 14 (fixed 6 value)

def statusLines (input : Format.Input) (s : Solution Float) : List String :=
  match s.status with
  | .optimal =>
    ["Status: OPTIMAL",
     "Objective: " ++ fixed 6 (s.objectiveValue.getD (0 / 0)),
     s!"Iterations: {s.iterations}",
     "",
     "Solution:"] ++
    (input.toProblem.assignments (s.values.getD [])).map fun (name, value) =>
      assignmentLine name value
  | .infeasible => ["Status: INFEASIBLE", "No x >= 0 satisfies all constraints."]
  | .unbounded => ["Status: UNBOUNDED", "The problem has no finite optimal solution."]
  | .iterationLimit =>
    ["Status: ITERATION LIMIT", s!"No verdict after {s.iterations} pivots."]

def comparedLines (c : Compared) : List String :=
  match c.result with
  | .error e => ["Solution verification failed: " ++ e.message]
  | .ok v =>
    if v.isMatch then ["Solution verified successfully!"]
    else
      ["Solution verification failed!",
       "  expected objective:   " ++ fixed 6 c.reference.objective,
       "  objective difference: " ++ scientificTo 3 v.objectiveDifference,
       "  solution difference:  " ++ scientificTo 3 v.solutionDifference]

namespace SolveReport

def text (r : SolveReport) : String :=
  lines <|
    [s!"Problem: {r.input.numConstraints} constraints, {r.input.numVariables} variables", ""] ++
    statusLines r.input r.solution ++
    match r.compared with
    | none => []
    | some c => "" :: comparedLines c

def comparedJson (c : Compared) : Json :=
  match c.result with
  | .ok v => .ofVerification v
  | .error e => .ofMembers [("error", .ofString e.message)]

def json (r : SolveReport) : Json :=
  Json.sorted <| .ofMembers
    [("file", .ofString r.file),
     ("constraints", .ofNat r.input.numConstraints),
     ("variables", .ofNat r.input.numVariables),
     ("solution", .ofSolution r.solution),
     ("verification", .ofOption comparedJson r.compared)]

def succeeds (r : SolveReport) : Bool :=
  r.solution.isOptimal && r.compared.all Compared.isMatch

end SolveReport

end PenaltySimplex.Command
