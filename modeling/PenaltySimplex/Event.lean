import PenaltySimplex.Decimal.Text
import PenaltySimplex.Logged

/-!
# PenaltySimplex.Event

What a computation reports about itself. Events carry the numbers they speak of; their wording
is in `Event.message` alone.
-/

namespace PenaltySimplex

inductive Level where
  | trace
  | debug
  | info
  | warn
deriving Repr, DecidableEq

/-- Rows of a tableau are counted from the objective row, columns and variables from zero. -/
inductive Event (α : Type) where
  | parsed (numConstraints numVariables : Nat)
  | standardForm (rows numVariables slacks : Nat)
  | rank (rank rows columns : Nat)
  /-- The right-hand side is too far from the column space. -/
  | inconsistent (residual : α)
  /-- Zero rows and multiples of earlier rows were left out. -/
  | pruned (count : Nat)
  /-- No row is left after pruning. -/
  | unconstrained
  /-- Rows that depend on earlier ones were left out. -/
  | reduced (count : Nat)
  | built (rows columns : Nat) (penalty : α)
  | exchange (index entering leaving row : Nat)
  /-- No reduced cost is negative any more. -/
  | optimal (exchanges : Nat)
  /-- A column with a negative reduced cost is bounded by no row. -/
  | unbounded (column : Nat)
  | iterationLimit (cap : Nat)
  /-- An artificial variable stayed basic at a positive value. -/
  | artificial (basic row : Nat) (value : α)
  /-- The analysis rejected the problem, so no tableau was built. -/
  | rejected
  | verdict (objective : α) (exchanges : Nat)
deriving Repr, DecidableEq

namespace Event

def level {α : Type} : Event α → Level
  | .exchange .. => .trace
  | .inconsistent _ | .iterationLimit _ | .artificial .. => .warn
  | .unbounded _ | .rejected | .verdict .. => .info
  | _ => .debug

open Decimal in
def message : Event Float → String
  | .parsed n m => s!"parsed LP input: {n} constraints, {m} variables"
  | .standardForm m n k =>
    s!"standard form: {m} rows, {n} original + {k} slack/surplus columns"
  | .rank r m n => s!"numerical rank of A: {r} ({m}x{n})"
  | .inconsistent residual =>
    s!"system is infeasible: b is not in the column space of A (residual {scientificTo 3 residual})"
  | .pruned k => s!"pruned {k} zero or duplicate rows"
  | .unconstrained => "constraint matrix is empty after pruning, problem is unconstrained"
  | .reduced k => s!"rank reduction dropped {k} dependent rows"
  | .built rows columns penalty =>
    s!"built {rows}x{columns} Big-M tableau (M = {scientific penalty})"
  | .exchange i entering leaving row =>
    s!"pivot {i}: column {entering} enters, variable {leaving} leaves row {row}"
  | .optimal n => s!"optimal after {n} pivots"
  | .unbounded column => s!"verdict: unbounded, column {column} has no positive entry"
  | .iterationLimit cap => s!"iteration limit of {cap} reached without a verdict"
  | .artificial x row value =>
    s!"artificial variable {x} still basic in row {row} at " ++
      s!"{scientificTo 3 value}, reporting infeasible"
  | .rejected => "verdict: infeasible (rejected before tableau construction)"
  | .verdict objective n =>
    s!"verdict: optimal, objective {plain objective} after {n} pivots"

end Event

def Level.label : Level → String
  | .trace => "TRACE"
  | .debug => "DEBUG"
  | .info => "INFO"
  | .warn => "WARN"

end PenaltySimplex
