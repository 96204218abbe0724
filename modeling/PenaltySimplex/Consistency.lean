import PenaltySimplex.Linear.ColumnSpace
import PenaltySimplex.Linear.RowSelection
import PenaltySimplex.StandardForm

/-!
# PenaltySimplex.Consistency

Analysis of the equations `A x = b` before any pivoting: is `b` in the column space of `A`, and
which rows carry all of the information?

`Analyzer.analyze` answers `infeasible` with the distance of `b` from the column space when that
exceeds the tolerance. Otherwise it returns the problem with full row rank, possibly without any
row, and the numbers of the rows kept.

How the distance is measured is part of the analyzer. `Analyzer.ofTolerance` measures it with an
orthogonal factorization.
-/

namespace PenaltySimplex

inductive Feasibility (α : Type) where
  | infeasible (residual : α)
  | feasible (problem : StandardForm α) (keptRows : List Nat)

def Feasibility.isFeasible {α : Type} : Feasibility α → Bool
  | .infeasible _ => false
  | .feasible .. => true

structure Analyzer (α : Type) where
  tolerance : α
  prunes : Bool
  /-- Residual of a right-hand side against a matrix given by its width and rows. -/
  measure : Nat → List (List α) → List α → Linear.Residual α

/-- `1e-8`, the tolerance of rank and consistency decisions. -/
def defaultRankTolerance : Float := 1e-8

namespace Analyzer

variable {α : Type} [RootScalar α]

/-- The analyzer that measures with an orthogonal factorization. -/
def ofTolerance (tolerance : α) (prunes : Bool) : Analyzer α where
  tolerance
  prunes
  measure := Linear.residual tolerance

/-- The residual, with the event of the factorization if there was one. -/
def residual (a : Analyzer α) (p : StandardForm α) (b : List α) :
    Logged (Event α) (Linear.Residual α) := do
  let r := a.measure p.numColumns p.rows b
  Logged.noteAll (r.rank.toList.map fun rank => .rank rank p.numRows p.numColumns)
  return r

/-- The distance of any vector from the column space. A vector of the wrong length is an error
where its entries would meet those of a basis. -/
def distance? (a : Analyzer α) (p : StandardForm α) (b : List α) :
    Logged (Event α) (Option α) := do
  let r ← a.residual p b
  return if r.rank.getD 0 ≠ 0 ∧ b.length ≠ p.numRows then none else some r.distance

/-- The rows that enter the rank pass, with their numbers. -/
def candidates (a : Analyzer α) (rows : List (List α)) : List (List α × Nat) :=
  if a.prunes then Linear.prune a.tolerance rows.zipIdx else rows.zipIdx

def keptRows (a : Analyzer α) (rows : List (List α)) : List Nat :=
  (Linear.independentRows a.tolerance (a.candidates rows)).map Prod.snd

def analyze (a : Analyzer α) (p : StandardForm α) : Logged (Event α) (Feasibility α) := do
  let r ← a.residual p p.rhs
  if a.tolerance < r.distance then
    Logged.note (.inconsistent r.distance)
    return .infeasible r.distance
  else
    let candidates := (a.candidates p.rows).length
    let kept := a.keptRows p.rows
    Logged.noteIf (candidates < p.numRows) (.pruned (p.numRows - candidates))
    Logged.noteIf (candidates = 0) .unconstrained
    Logged.noteIf (kept.length < candidates) (.reduced (candidates - kept.length))
    return .feasible (p.selectRows kept) kept

theorem value_analyze (a : Analyzer α) (p : StandardForm α) :
    (a.analyze p).value =
      if a.tolerance < (a.measure p.numColumns p.rows p.rhs).distance then
        .infeasible (a.measure p.numColumns p.rows p.rhs).distance
      else .feasible (p.selectRows (a.keptRows p.rows)) (a.keptRows p.rows) := by
  by_cases h : a.tolerance < (a.measure p.numColumns p.rows p.rhs).distance <;>
    simp [analyze, residual, h]

end Analyzer

end PenaltySimplex
