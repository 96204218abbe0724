import PenaltySimplex.Decimal.Text
import PenaltySimplex.Format.Token

/-!
# PenaltySimplex.Format.ParseError

Why a text is refused. An error says what was expected and what stood there; where there is a
place to point at, it carries the line, and for an unexpected token its span.
-/

namespace PenaltySimplex.Format

inductive Expected where
  | constraintCount
  | variableCount
  | objective
  | constraintRow
  | rightHandSide
  | objectiveValue
  | solutionVector
  | number
  | endOfLine
  | endOfFile
deriving Repr, DecidableEq

def Expected.text : Expected → String
  | .constraintCount => "number of constraints"
  | .variableCount => "number of variables"
  | .objective => "objective coefficients"
  | .constraintRow => "constraint row"
  | .rightHandSide => "right-hand side"
  | .objectiveValue => "objective value"
  | .solutionVector => "solution vector"
  | .number => "number"
  | .endOfLine => "end of line"
  | .endOfFile => "end of file"

inductive Found where
  | endOfLine
  | text (text : String)
deriving Repr, DecidableEq

def Found.render : Found → String
  | .endOfLine => "end of line"
  | .text t => "'" ++ t ++ "'"

inductive DimensionError where
  | notWhole (what : Expected) (value : Float)
  | tooLarge (what : Expected) (value : Float)
  | noVariables
deriving Repr, DecidableEq

def DimensionError.message : DimensionError → String
  | .notWhole what value =>
    s!"{what.text} must be a non-negative integer, got {Decimal.plain value}"
  | .tooLarge what value => s!"{what.text} is too large: {Decimal.plain value}"
  | .noVariables => "an LP needs at least one variable"

inductive ParseError where
  | unexpectedToken (expected : Expected) (found : Found) (line : Nat) (span : Span)
  | unexpectedEnd (expected : Expected)
  | invalidNumber (text : String) (line : Nat)
  | rowLength (line expected found : Nat)
  | invalidDimensions (cause : DimensionError)
deriving Repr, DecidableEq

namespace ParseError

def message : ParseError → String
  | .unexpectedToken expected found line _ =>
    s!"Unexpected token on line {line}: expected {expected.text}, found {found.render}"
  | .unexpectedEnd expected => s!"Unexpected end of file: expected {expected.text}"
  | .invalidNumber text line => s!"Invalid number on line {line}: {text}"
  | .rowLength line expected found =>
    s!"Row on line {line} has {found} coefficients, expected {expected}"
  | .invalidDimensions cause => "Invalid dimensions: " ++ cause.message

/-- The line at fault, when there is one. -/
def line? : ParseError → Option Nat
  | .unexpectedToken _ _ line _ | .invalidNumber _ line | .rowLength line _ _ => some line
  | .unexpectedEnd _ | .invalidDimensions _ => none

/-- The span of the token at fault, when there is one. -/
def span? : ParseError → Option Span
  | .unexpectedToken _ _ _ span => some span
  | _ => none

end ParseError

end PenaltySimplex.Format
