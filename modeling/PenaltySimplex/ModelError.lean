/-!
# PenaltySimplex.ModelError

Why a problem, an equality form or a tableau is refused. Infeasible and unbounded problems are
not refused: those are answers.
-/

namespace PenaltySimplex

inductive Part where
  | objective
  | constraint (name : String)
  | matrixColumns
  | rightHandSide
  | standardForm
  | constraintRow
  | tableauRow
  | tableau
deriving Repr, DecidableEq

def Part.label : Part → String
  | .objective => "objective"
  | .constraint name => "constraint " ++ name
  | .matrixColumns => "constraint matrix columns"
  | .rightHandSide => "right-hand side"
  | .standardForm => "standard form"
  | .constraintRow => "constraint row"
  | .tableauRow => "tableau row"
  | .tableau => "tableau"

inductive ModelError where
  | dimensionMismatch (part : Part) (expected found : Nat)
  | nonFinite (part : Part)
  | emptyTableau
  /-- A starting basis needs a variable column for each constraint row. -/
  | tooFewColumns (numConstraints numVariables : Nat)
deriving Repr, DecidableEq

def ModelError.message : ModelError → String
  | .dimensionMismatch part expected found =>
    s!"Dimension mismatch in {part.label}: expected {expected}, found {found}"
  | .nonFinite part => s!"Non-finite value in {part.label}"
  | .emptyTableau => "Tableau must have at least one row and one column"
  | .tooFewColumns m n =>
    s!"Invalid tableau: {m} constraint rows but only {n} variable columns"

end PenaltySimplex
