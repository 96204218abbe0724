import PenaltySimplex.Scalar
import PenaltySimplex.Solution

/-!
# PenaltySimplex.Verification

Comparison of a solution with a reference: the distance of the objective values and the largest
distance of two values, each against an absolute tolerance.
-/

namespace PenaltySimplex

structure Reference (α : Type) where
  objective : α
  values : List α
deriving Repr, DecidableEq

structure Verification (α : Type) where
  objectiveDifference : α
  solutionDifference : α
  objectiveMatch : Bool
  solutionMatch : Bool
deriving Repr, DecidableEq

inductive VerifyError where
  | dimensionMismatch (computed expected : Nat)
  | notOptimal (status : Status)
deriving Repr, DecidableEq

def VerifyError.message : VerifyError → String
  | .dimensionMismatch computed expected =>
    s!"Solution dimension mismatch: got {computed}, expected {expected}"
  | .notOptimal status => "Only optimal solutions can be verified, status is " ++ status.text

def defaultVerifyTolerance : Float := 1e-3

def Verification.isMatch {α : Type} (v : Verification α) : Bool :=
  v.objectiveMatch && v.solutionMatch

variable {α : Type} [Scalar α]

/-- The distances of the values of two lists, as far as both reach. -/
def valueDifferences (values expected : List α) : List α :=
  List.zipWith (fun a b => Scalar.abs (a - b)) values expected

/-- Compares an optimal solution that has values and an objective value with a reference of the
same length. -/
def verify (s : Solution α) (r : Reference α) (tolerance : α) :
    Except VerifyError (Verification α) :=
  match s.status, s.values, s.objectiveValue with
  | .optimal, some values, some objective =>
    if values.length ≠ r.values.length then
      .error (.dimensionMismatch values.length r.values.length)
    else
      let objectiveDifference := Scalar.abs (objective - r.objective)
      let solutionDifference := Scalar.maximum (valueDifferences values r.values)
      .ok
        { objectiveDifference
          solutionDifference
          objectiveMatch := objectiveDifference < tolerance
          solutionMatch := solutionDifference < tolerance }
  | status, _, _ => .error (.notOptimal status)

end PenaltySimplex
