import PenaltySimplex.Event
import PenaltySimplex.StandardForm
import PenaltySimplex.Tableau

/-!
# PenaltySimplex.Tableau.Penalty

The starting tableau of the penalty method: the columns of the problem, one artificial column per
row, and the right-hand side.

Rows with a negative right-hand side are negated, so the artificial variables are a feasible
starting basis. An artificial variable costs the penalty `M`. With the artificial variables basic
the objective row holds `c - M * (sum of the rows)`, and every artificial has reduced cost zero.
The rows should be independent; that is not checked.
-/

namespace PenaltySimplex

/-- `1e6`, the cost of one unit of an artificial variable. -/
def defaultPenalty : Float := 1e6

namespace Equation

variable {α : Type} [Scalar α]

/-- `-1` for an equation with a negative right-hand side, else `1`. -/
def orientation (e : Equation α) : α :=
  if e.rhs < 0 then -1 else 1

/-- The equation, negated if its right-hand side is negative. -/
def oriented (e : Equation α) : Equation α where
  coefficients := e.coefficients.map (e.orientation * ·)
  rhs := e.orientation * e.rhs

end Equation

namespace StandardForm

variable {α : Type} [Scalar α]

/-- The reduced cost of a column of the problem in the starting basis. -/
def startingCost (penalty : α) (p : StandardForm α) (j : Nat) : α :=
  p.objective.getD j 0 -
    penalty * Scalar.sum (p.equations.map fun e => e.oriented.coefficients.getD j 0)

/-- The starting entry in constraint row `i`, counted from zero. -/
def startingEntry (p : StandardForm α) (i j : Nat) : α :=
  match p.equations[i]? with
  | none => 0
  | some e =>
    if j < p.numColumns then e.oriented.coefficients.getD j 0
    else if j = p.numColumns + p.numRows then e.oriented.rhs
    else if j = p.numColumns + i then 1
    else 0

def startingTableau (penalty : α) (p : StandardForm α) : Tableau α :=
  .ofFn (p.numRows + 1) (p.numColumns + p.numRows + 1) fun i j =>
    match i with
    | 0 =>
      if j < p.numColumns then p.startingCost penalty j
      else if j = p.numColumns + p.numRows then -penalty * Scalar.sum (p.rhs.map Scalar.abs)
      else 0
    | i + 1 => p.startingEntry i j

def builtEvent (penalty : α) (p : StandardForm α) : Event α :=
  .built (p.numRows + 1) (p.numColumns + p.numRows + 1) penalty

end StandardForm

end PenaltySimplex
