import PenaltySimplex.Format.Token
import PenaltySimplex.Problem

/-!
# PenaltySimplex.Format.Input

The contents of an input file: an objective and constraint rows, each with the line it stands on,
and the problem that they state. Variables are named `x1`, `x2`, … and constraints `r1`, `r2`, ….
-/

namespace PenaltySimplex.Format

structure InputRow where
  coefficients : List Float
  comparison : Comparison
  rhs : Float
  line : Nat
deriving Repr, DecidableEq

structure Input where
  sense : Sense
  objective : List Float
  rows : List InputRow
deriving Repr, DecidableEq

namespace Input

def numVariables (x : Input) : Nat := x.objective.length

def numConstraints (x : Input) : Nat := x.rows.length

def toProblem (x : Input) : Problem Float where
  names := (Problem.ofDimension x.numVariables : Problem Float).names
  sense := x.sense
  objective := x.objective
  constraints := x.rows.zipIdx.map fun (row, i) =>
    ⟨s!"r{i + 1}", row.coefficients, row.comparison, row.rhs⟩

end Input

end PenaltySimplex.Format
