import PenaltySimplex.Format.Parser
import PenaltySimplex.Solver

/-!
# PenaltySimplex.Format.Web

The entry point for a web page: the text of an input file in, a value of the page out. A file
that cannot be read, and a problem that the solver refuses, fail with their messages.
-/

namespace PenaltySimplex.Format

/-- What the page is told about a solution. -/
structure Answer where
  status : Status
  objective : Option Float
  values : Option (List Float)
  iterations : Nat
  /-- Milliseconds. -/
  elapsed : Float
deriving Repr, DecidableEq

def Answer.ofSolution (s : Solution Float) (elapsed : Float) : Answer where
  status := s.status
  objective := s.objectiveValue
  values := s.values
  iterations := s.iterations
  elapsed

/-- The settings of the page, which may only choose the penalty. -/
def webSettings (penalty? : Option Float) : Settings where
  penalty := penalty?.getD defaultPenalty

/-- Solves the text of an input file. The page's clock reads `started` before the solver runs and
`finished` after it, and `encode` turns an answer into a value of the page. -/
def webSolve {β : Type} (encode : Answer → Except String β) (started finished : Float)
    (penalty? : Option Float) (source : String) : Logged (Event Float) (Except String β) :=
  match parseInput source with
  | .error e => return .error e.message
  | .ok input => do
    Logged.note input.parsedEvent
    match ← (webSettings penalty?).solver.solve input.toProblem with
    | .error e => return .error e.message
    | .ok solution => return encode (.ofSolution solution (finished - started))

end PenaltySimplex.Format
