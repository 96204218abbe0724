import PenaltySimplex.Capacity
import PenaltySimplex.ModelError
import PenaltySimplex.Scalar

/-!
# PenaltySimplex.Problem

Linear programs in general form: named nonnegative variables, an objective to minimize or
maximize, and constraints that compare a linear form with a right-hand side.

`Problem.validate` refuses a problem whose coefficient lists do not all have one entry per
variable or that holds a value that is not finite; the objective is looked at first, then the
constraints in order.
-/

namespace PenaltySimplex

inductive Sense where
  | minimize
  | maximize
deriving Repr, DecidableEq

inductive Comparison where
  | le
  | ge
  | eq
deriving Repr, DecidableEq

structure Constraint (α : Type) where
  name : String
  coefficients : List α
  comparison : Comparison
  rhs : α
deriving Repr, DecidableEq

structure Problem (α : Type) where
  names : List String
  sense : Sense
  objective : List α
  constraints : List (Constraint α)
deriving Repr, DecidableEq

namespace Problem

variable {α : Type}

def numVariables (p : Problem α) : Nat := p.names.length

def numConstraints (p : Problem α) : Nat := p.constraints.length

/-- Minimize zero over the named variables. -/
def ofNames [Zero α] (names : List String) : Problem α where
  names
  sense := .minimize
  objective := List.replicate names.length 0
  constraints := []

def ofDimension [Zero α] (n : Nat) : Problem α :=
  ofNames ((List.range n).map fun i => s!"x{i + 1}")

/-- Variables named `x1` to `xn`, if a list has room for the names. -/
def ofDimension? [Zero α] (n : Nat) : Option (Problem α) :=
  if hasRoom n recordBytes then some (ofDimension n) else none

def setObjective (p : Problem α) (coefficients : List α) (sense : Sense) : Problem α :=
  { p with objective := coefficients, sense := sense }

def addConstraint (p : Problem α) (c : Constraint α) : Problem α :=
  { p with constraints := p.constraints ++ [c] }

/-- Adds a variable name; coefficient lists stay as they are. -/
def pushVariable (p : Problem α) (name : String) : Problem α :=
  { p with names := p.names ++ [name] }

/-- Each variable name with its value, as far as both lists reach. -/
def assignments (p : Problem α) (values : List α) : List (String × α) :=
  p.names.zip values

variable [Scalar α]

def checkObjective (n : Nat) (objective : List α) : Except ModelError Unit :=
  if objective.length ≠ n then .error (.dimensionMismatch .objective n objective.length)
  else if objective.all Scalar.isFinite then .ok ()
  else .error (.nonFinite .objective)

def checkConstraint (n : Nat) (c : Constraint α) : Except ModelError Unit :=
  if c.coefficients.length ≠ n then
    .error (.dimensionMismatch (.constraint c.name) n c.coefficients.length)
  else if Scalar.isFinite c.rhs && c.coefficients.all Scalar.isFinite then .ok ()
  else .error (.nonFinite (.constraint c.name))

/-- Checks the constraints in order; the first one at fault is reported. -/
def checkConstraints (n : Nat) : List (Constraint α) → Except ModelError Unit
  | [] => .ok ()
  | c :: cs =>
    match checkConstraint n c with
    | .ok () => checkConstraints n cs
    | .error e => .error e

def validate (p : Problem α) : Except ModelError Unit :=
  match checkObjective p.numVariables p.objective with
  | .ok () => checkConstraints p.numVariables p.constraints
  | .error e => .error e

theorem checkObjective_eq_ok_iff {n : Nat} {objective : List α} :
    checkObjective n objective = .ok () ↔
      objective.length = n ∧ ∀ c ∈ objective, Scalar.isFinite c = true := by
  unfold checkObjective
  split
  · simp_all
  · split <;> simp_all

theorem checkConstraint_eq_ok_iff {n : Nat} {c : Constraint α} :
    checkConstraint n c = .ok () ↔
      c.coefficients.length = n ∧ Scalar.isFinite c.rhs = true ∧
        ∀ a ∈ c.coefficients, Scalar.isFinite a = true := by
  unfold checkConstraint
  split
  · simp_all
  · split <;> simp_all

theorem checkConstraints_eq_ok_iff {n : Nat} {cs : List (Constraint α)} :
    checkConstraints n cs = .ok () ↔ ∀ c ∈ cs, checkConstraint n c = .ok () := by
  induction cs with
  | nil => simp [checkConstraints]
  | cons c cs ih =>
    simp only [checkConstraints, List.forall_mem_cons]
    cases h : checkConstraint n c with
    | ok u => simp [ih]
    | error e => simp

/-- A problem is accepted exactly when its lists have one entry per variable and every number
is finite. -/
theorem validate_eq_ok_iff {p : Problem α} :
    p.validate = .ok () ↔
      (p.objective.length = p.numVariables ∧ ∀ c ∈ p.objective, Scalar.isFinite c = true) ∧
        ∀ c ∈ p.constraints, c.coefficients.length = p.numVariables ∧
          Scalar.isFinite c.rhs = true ∧ ∀ a ∈ c.coefficients, Scalar.isFinite a = true := by
  simp only [← checkObjective_eq_ok_iff, ← checkConstraint_eq_ok_iff,
    ← checkConstraints_eq_ok_iff, validate]
  cases h : checkObjective p.numVariables p.objective with
  | ok u => simp
  | error e => simp

end Problem

end PenaltySimplex
