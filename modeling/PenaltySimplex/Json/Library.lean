import PenaltySimplex.Format.Token
import PenaltySimplex.Json.Value
import PenaltySimplex.Problem
import PenaltySimplex.Verification

/-!
# PenaltySimplex.Json.Library

The JSON forms of the result types, over the library that reads and writes JSON.

A `Library` writes and reads texts and has forms for numbers, flags, lists, optional values, names
and records. How it spells a number, and what it takes a number text for, is its own affair. A
result type only says which fields it has, in which order and of which form.
-/

namespace PenaltySimplex.Json

/-- The JSON form of a type: how its values are written and read. -/
structure Form (α : Type) where
  encode : α → Json
  decode? : Json → Option α
  /-- What a missing field of this type is read as. -/
  missing? : Option α

def Form.field? {α : Type} (form : Form α) : Option Json → Option α
  | some v => form.decode? v
  | none => form.missing?

structure Library where
  write : Json → String
  read? : String → Option Json
  float : Form Float
  count : Form Nat
  flag : Form Bool
  list {α : Type} (form : Form α) : Form (List α)
  option {α : Type} (form : Form α) : Form (Option α)
  /-- A type with finitely many values, each with a name. -/
  names {α : Type} (name : α → String) (all : List α) : Form α
  ofFields : List (String × Json) → Json
  /-- The named fields of a record, in the order of the names. -/
  fields? : List String → Json → Option (List (Option Json))

/-- Names of statuses in snake case. -/
def statusName : Status → String
  | .optimal => "optimal"
  | .infeasible => "infeasible"
  | .unbounded => "unbounded"
  | .iterationLimit => "iteration_limit"

def comparisonName : Comparison → String
  | .le => "Le"
  | .ge => "Ge"
  | .eq => "Eq"

namespace Library

variable (lib : Library)

def status : Form Status :=
  lib.names statusName [.optimal, .infeasible, .unbounded, .iterationLimit]

def comparison : Form Comparison :=
  lib.names comparisonName [.le, .ge, .eq]

def solution : Form (Solution Float) where
  encode s := lib.ofFields
    [("status", lib.status.encode s.status),
     ("values", (lib.option (lib.list lib.float)).encode s.values),
     ("objective_value", (lib.option lib.float).encode s.objectiveValue),
     ("iterations", lib.count.encode s.iterations)]
  decode? v := do
    match ← lib.fields? ["status", "values", "objective_value", "iterations"] v with
    | [status, values, objectiveValue, iterations] =>
      return {
        status := ← lib.status.field? status
        values := ← (lib.option (lib.list lib.float)).field? values
        objectiveValue := ← (lib.option lib.float).field? objectiveValue
        iterations := ← lib.count.field? iterations }
    | _ => none
  missing? := none

def reference : Form (Reference Float) where
  encode r := lib.ofFields
    [("objective", lib.float.encode r.objective),
     ("values", (lib.list lib.float).encode r.values)]
  decode? v := do
    match ← lib.fields? ["objective", "values"] v with
    | [objective, values] =>
      return {
        objective := ← lib.float.field? objective
        values := ← (lib.list lib.float).field? values }
    | _ => none
  missing? := none

def verification : Form (Verification Float) where
  encode v := lib.ofFields
    [("objective_difference", lib.float.encode v.objectiveDifference),
     ("solution_difference", lib.float.encode v.solutionDifference),
     ("objective_match", lib.flag.encode v.objectiveMatch),
     ("solution_match", lib.flag.encode v.solutionMatch)]
  decode? v := do
    match ← lib.fields?
        ["objective_difference", "solution_difference", "objective_match", "solution_match"] v with
    | [objectiveDifference, solutionDifference, objectiveMatch, solutionMatch] =>
      return {
        objectiveDifference := ← lib.float.field? objectiveDifference
        solutionDifference := ← lib.float.field? solutionDifference
        objectiveMatch := ← lib.flag.field? objectiveMatch
        solutionMatch := ← lib.flag.field? solutionMatch }
    | _ => none
  missing? := none

def span : Form Format.Span where
  encode s := lib.ofFields [("start", lib.count.encode s.start), ("end", lib.count.encode s.stop)]
  decode? v := do
    match ← lib.fields? ["start", "end"] v with
    | [start, stop] =>
      return { start := ← lib.count.field? start, stop := ← lib.count.field? stop }
    | _ => none
  missing? := none

end Library

end PenaltySimplex.Json
