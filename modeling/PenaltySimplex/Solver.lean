import PenaltySimplex.Consistency
import PenaltySimplex.Simplex.Run
import PenaltySimplex.Tableau.Penalty

/-!
# PenaltySimplex.Solver

Solving linear programs by the penalty method.

A problem in equality form is analyzed first. If it is consistent, the reduced problem gets its
starting tableau and the pivot loop runs. The loop may end optimal with an artificial variable
still basic at a value that is not negligible: then no nonnegative point satisfies the equations.
Otherwise the values of the problem's variables are read off the final tableau.

A general problem is solved through its equality form; the values are cut to its own variables
and the objective value of a maximized problem is negated back.
-/

namespace PenaltySimplex

/-- `1e-10`, the tolerance of reduced costs and ratios. -/
def defaultPivotTolerance : Float := 1e-10

def defaultMaxIterations : Nat := 10000

structure Solver (α : Type) where
  /-- Cost of one unit of an artificial variable. -/
  penalty : α
  pivotTolerance : α
  maxIterations : Nat
  /-- Consistency check and row reduction; its tolerance also judges artificial variables. -/
  analyzer : Analyzer α

/-- The settings of a solver that measures residuals with an orthogonal factorization. -/
structure Settings where
  penalty : Float := defaultPenalty
  pivotTolerance : Float := defaultPivotTolerance
  rankTolerance : Float := defaultRankTolerance
  maxIterations : Nat := defaultMaxIterations
  prunes : Bool := true

def Settings.analyzer (s : Settings) : Analyzer Float :=
  .ofTolerance s.rankTolerance s.prunes

def Settings.solver (s : Settings) : Solver Float where
  penalty := s.penalty
  pivotTolerance := s.pivotTolerance
  maxIterations := s.maxIterations
  analyzer := s.analyzer

namespace Solver

variable {α : Type} [RootScalar α]

/-- One more than the largest magnitude of a right-hand side. -/
def rhsScale (p : StandardForm α) : α :=
  1 + Scalar.maximum (p.rhs.map Scalar.abs)

/-- The first row whose basic variable is artificial and exceeds a bound: the row counted from
zero, and the variable. -/
def residualArtificial? (numColumns : Nat) (bound : α) (d : Dictionary α) : Option (Nat × Nat) :=
  (d.basis.zipIdx.find? fun (j, i) => numColumns ≤ j ∧ bound < d.tableau.rhs (i + 1)).map
    fun (j, i) => (i, j)

def outcome (s : Solver α) (p : StandardForm α) : Outcome α :=
  (p.startingTableau s.penalty).solveFrom s.pivotTolerance s.maxIterations

def conclude (s : Solver α) (p : StandardForm α) (o : Outcome α) :
    Logged (Event α) (Solution α) :=
  match o.stop with
  | .unbounded _ => return .unbounded o.iterations
  | .iterationLimit => return .iterationLimit o.iterations
  | .optimal =>
    match residualArtificial? p.numColumns (s.analyzer.tolerance * rhsScale p) o.final with
    | some (i, j) => do
      Logged.note (.artificial j (i + 1) (o.tableau.rhs (i + 1)))
      return .infeasible o.iterations
    | none => do
      let values := o.final.values
      let objective := Scalar.sum (List.zipWith (· * ·) p.objective values)
      Logged.note (.verdict objective o.iterations)
      return .optimal values objective o.iterations

/-- Solves a problem in equality form with independent rows. -/
def solveReduced (s : Solver α) (p : StandardForm α) : Logged (Event α) (Solution α) := do
  Logged.note (p.builtEvent s.penalty)
  let o := s.outcome p
  Logged.noteAll o.events
  s.conclude p o

def solveStandard (s : Solver α) (p : StandardForm α) : Logged (Event α) (Solution α) := do
  match ← s.analyzer.analyze p with
  | .infeasible _ =>
    Logged.note .rejected
    return .infeasible 0
  | .feasible reduced _ => s.solveReduced reduced

/-- The answer to a general problem, from the answer to its equality form. -/
def restore (p : Problem α) (x : Solution α) : Solution α :=
  { x with
    values := x.values.map (·.take p.numVariables)
    objectiveValue := match p.sense with
      | .minimize => x.objectiveValue
      | .maximize => x.objectiveValue.map fun v => -v }

def solve (s : Solver α) (p : Problem α) :
    Logged (Event α) (Except ModelError (Solution α)) := do
  match ← p.standardForm with
  | .error e => return .error e
  | .ok standard => return .ok (restore p (← s.solveStandard standard))

theorem value_solve (s : Solver α) {p : Problem α} {q : StandardForm α}
    (hq : p.toStandardForm = .ok q) :
    (s.solve p).value = .ok (restore p (s.solveStandard q).value) := by
  rw [solve, Logged.value_bind, Problem.value_standardForm, hq]
  rfl

end Solver

end PenaltySimplex
