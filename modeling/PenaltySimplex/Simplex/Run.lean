import PenaltySimplex.Event
import PenaltySimplex.Simplex.Rule
import PenaltySimplex.Solution

/-!
# PenaltySimplex.Simplex.Run

The pivot loop. `Dictionary.run` exchanges basic variables until no column can enter, a column is
unbounded or the cap on exchanges is reached; a column is found unbounded before the cap is looked
at. The cap is the fuel of the recursion.

`Tableau.solve` runs from the basis of the last variable columns. It refuses a tableau without
rows or columns and one with fewer variable columns than constraint rows.
-/

namespace PenaltySimplex

inductive Stop where
  | optimal
  | unbounded (column : Nat)
  | iterationLimit
deriving Repr, DecidableEq

def Stop.status : Stop → Status
  | .optimal => .optimal
  | .unbounded _ => .unbounded
  | .iterationLimit => .iterationLimit

/-- One exchange: a column enters, the basic variable of a row leaves. -/
structure Exchange where
  entering : Nat
  leaving : Nat
  row : Nat
deriving Repr, DecidableEq

/-- Where a run stopped, and the exchanges that led there, the latest first. -/
structure Outcome (α : Type) where
  stop : Stop
  final : Dictionary α
  history : List Exchange
deriving DecidableEq

/-- The pivot loop, with at most `cap` further exchanges after those of `history`. -/
def Dictionary.run {α : Type} [Scalar α] (eps : α) :
    Nat → Dictionary α → List Exchange → Outcome α
  | cap, d, history =>
    match d.choose eps with
    | .optimal => ⟨.optimal, d, history⟩
    | .unbounded column => ⟨.unbounded column, d, history⟩
    | .exchange row column =>
      match cap with
      | 0 => ⟨.iterationLimit, d, history⟩
      | cap + 1 =>
        (d.exchange row column).run eps cap (⟨column, d.basis.getD (row - 1) 0, row⟩ :: history)

namespace Outcome

variable {α : Type}

def status (o : Outcome α) : Status := o.stop.status

def iterations (o : Outcome α) : Nat := o.history.length

def tableau (o : Outcome α) : Tableau α := o.final.tableau

def basis (o : Outcome α) : List Nat := o.final.basis

/-- The values of the structural columns, of an optimal outcome only. -/
def values [Scalar α] (o : Outcome α) : Option (List α) :=
  match o.stop with
  | .optimal => some o.final.values
  | _ => none

def objectiveValue [Scalar α] (o : Outcome α) : α := o.tableau.objectiveValue

/-- The exchanges in order and then the reason to stop. -/
def events (o : Outcome α) : List (Event α) :=
  let exchanges := o.history.reverse.zipIdx.map fun (e, i) =>
    .exchange i e.entering e.leaving e.row
  let last := match o.stop with
    | .optimal => .optimal o.iterations
    | .unbounded column => .unbounded column
    | .iterationLimit => .iterationLimit o.iterations
  exchanges ++ [last]

end Outcome

/-- Runs from the basis of the last variable columns. -/
def Tableau.solveFrom {α : Type} [Scalar α] (eps : α) (cap : Nat) (t : Tableau α) : Outcome α :=
  (Dictionary.start t).run eps cap []

/-- As `solveFrom`, if the tableau has rows and columns enough. -/
def Tableau.solve {α : Type} [Scalar α] (eps : α) (cap : Nat) (t : Tableau α) :
    Except ModelError (Outcome α) :=
  if t.numRows = 0 ∨ t.numColumns = 0 then .error .emptyTableau
  else if t.numVariables < t.numConstraints then
    .error (.tooFewColumns t.numConstraints t.numVariables)
  else .ok (t.solveFrom eps cap)

end PenaltySimplex
