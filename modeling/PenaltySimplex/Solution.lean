/-!
# PenaltySimplex.Solution

Answers to linear programs. The named constructors keep to the rule that only an optimal solution
has values and an objective value.
-/

namespace PenaltySimplex

inductive Status where
  | optimal
  | infeasible
  | unbounded
  /-- The cap on exchanges was reached before a verdict. -/
  | iterationLimit
deriving Repr, DecidableEq

def Status.text : Status → String
  | .optimal => "optimal"
  | .infeasible => "infeasible"
  | .unbounded => "unbounded"
  | .iterationLimit => "iteration limit exceeded"

structure Solution (α : Type) where
  status : Status
  /-- Values of the problem's own variables. -/
  values : Option (List α)
  /-- Objective value in the problem's own sense. -/
  objectiveValue : Option α
  iterations : Nat
deriving Repr, DecidableEq

namespace Solution

variable {α : Type}

def optimal (values : List α) (objectiveValue : α) (iterations : Nat) : Solution α :=
  ⟨.optimal, some values, some objectiveValue, iterations⟩

def bare (status : Status) (iterations : Nat) : Solution α :=
  ⟨status, none, none, iterations⟩

def infeasible (iterations : Nat) : Solution α := bare .infeasible iterations

def unbounded (iterations : Nat) : Solution α := bare .unbounded iterations

def iterationLimit (iterations : Nat) : Solution α := bare .iterationLimit iterations

def isOptimal (s : Solution α) : Bool := s.status == .optimal

end Solution

end PenaltySimplex
