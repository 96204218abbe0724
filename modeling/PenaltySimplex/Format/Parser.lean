import PenaltySimplex.Event
import PenaltySimplex.Format.Input
import PenaltySimplex.Format.Lexer
import PenaltySimplex.Format.ParseError
import PenaltySimplex.Verification

/-!
# PenaltySimplex.Format.Parser

Reading input files and reference files from their tokens.

```text
n m                      n constraint rows, m variables
[min|max] c1 ... cm
a11 ... a1m [<=|>=|=] b1
```

A row without a comparison is an equality whose last number is the right-hand side. A reference
file has the objective value on one line and the values on another. Comments and blank lines may
stand anywhere between lines, comments also at the end of a line.

A parser takes tokens off the front of a list. It returns what is left of the list also when it
fails, so reading can go on from there. The end-of-file token is never taken.
-/

namespace PenaltySimplex.Format

/-- Parsers keep their place in the token list when they fail. -/
abbrev Parse := EStateM ParseError (List Token)

namespace Parse

def kindOf : List Token → TokenKind
  | [] => .eof
  | t :: _ => t.kind

def lineOf : List Token → Nat
  | [] => 0
  | t :: _ => t.line

def unexpected (expected : Expected) : List Token → ParseError
  | [] => .unexpectedEnd expected
  | t :: _ =>
    match t.kind with
    | .eof => .unexpectedEnd expected
    | .newline => .unexpectedToken expected .endOfLine t.line t.span
    | _ => .unexpectedToken expected (.text t.text) t.line t.span

def refuse {β : Type} (expected : Expected) : Parse β := fun ts =>
  .error (unexpected expected ts) ts

def skipComments : Parse Unit := fun ts =>
  .ok () (ts.dropWhile Token.isComment)

def skipBlankLines : Parse Unit := fun ts =>
  .ok () (ts.dropWhile Token.isBlank)

/-- The rest of a line without content; a newline is taken, the end of the file is not. -/
def endLine : Parse Unit := fun ts =>
  match ts.dropWhile Token.isComment with
  | [] => .ok () []
  | t :: rest =>
    match t.kind with
    | .newline => .ok () rest
    | .eof => .ok () (t :: rest)
    | _ => .error (unexpected .endOfLine (t :: rest)) (t :: rest)

/-- A finite number. Its token is taken even if the text is not a number. -/
def number (expected : Expected) : Parse Float := fun ts =>
  match ts.dropWhile Token.isComment with
  | [] => .error (unexpected expected []) []
  | t :: rest =>
    if t.kind = .number then
      match t.value? with
      | some v => .ok v rest
      | none => .error (.invalidNumber t.text t.line) rest
    else .error (unexpected expected (t :: rest)) (t :: rest)

/-- As many numbers as there are, with the comments between and after them. -/
def numbers : Parse (List Float)
  | [] => .ok [] []
  | t :: rest =>
    match t.kind with
    | .comment => numbers rest
    | .number =>
      match t.value? with
      | none => .error (.invalidNumber t.text t.line) rest
      | some v =>
        match numbers rest with
        | .ok vs left => .ok (v :: vs) left
        | .error e left => .error e left
    | _ => .ok [] (t :: rest)

/-- The largest count of rows or variables in a header, `2 ^ 32 - 1`. -/
def maxDimension : Nat := 0xffffffff

def toDimension (what : Expected) (value : Float) : Except ParseError Nat :=
  match (Decimal.Binary.ofFloat value).natural? with
  | none => .error (.invalidDimensions (.notWhole what value))
  | some n =>
    if n ≤ maxDimension then .ok n else .error (.invalidDimensions (.tooLarge what value))

def dimension (what : Expected) : Parse Nat := do
  let value ← number what
  match toDimension what value with
  | .ok n => return n
  | .error e => throw e

def sense : Parse Sense := fun ts =>
  match ts with
  | [] => .ok .minimize []
  | t :: rest =>
    match t.kind with
    | .max => .ok .maximize rest
    | .min => .ok .minimize rest
    | _ => .ok .minimize (t :: rest)

def comparisonOf : TokenKind → Option Comparison
  | .le => some .le
  | .ge => some .ge
  | .eq => some .eq
  | _ => none

def comparison? : Parse (Option Comparison) := fun ts =>
  match ts with
  | [] => .ok none []
  | t :: rest =>
    match comparisonOf t.kind with
    | some c => .ok (some c) rest
    | none => .ok none (t :: rest)

/-- Numbers for `m` variables, refused by their line if there are more or fewer. -/
def checkLength (m line : Nat) (found : Nat) : Parse Unit :=
  if found = m then pure () else throw (.rowLength line m found)

def objective (m : Nat) : Parse (List Float) := do
  let line := lineOf (← get)
  let values ← numbers
  if values.isEmpty then refuse .objective
  checkLength m line values.length
  return values

/-- The numbers of a row after the comparison, or the last number before it. -/
def rightHandSide (values : List Float) :
    Option Comparison → Parse (List Float × Comparison × Float)
  | some c => do
    let rhs ← number .rightHandSide
    return (values, c, rhs)
  | none =>
    match values.getLast? with
    | some rhs => return (values.dropLast, .eq, rhs)
    | none => refuse .constraintRow

def row (m : Nat) : Parse InputRow := do
  let line := lineOf (← get)
  let values ← numbers
  let (coefficients, comparison, rhs) ← rightHandSide values (← comparison?)
  checkLength m line coefficients.length
  endLine
  return { coefficients, comparison, rhs, line }

def rows (m : Nat) : Nat → Parse (List InputRow)
  | 0 => return []
  | n + 1 => do
    skipBlankLines
    let first ← row m
    let others ← rows m n
    return first :: others

def endOfFile : Parse Unit := do
  skipBlankLines
  if kindOf (← get) ≠ .eof then refuse .endOfFile

def input : Parse Input := do
  skipBlankLines
  let n ← dimension .constraintCount
  let m ← dimension .variableCount
  if m = 0 then throw (.invalidDimensions .noVariables)
  endLine
  skipBlankLines
  let sense ← sense
  let objective ← objective m
  endLine
  let rows ← rows m n
  endOfFile
  return { sense, objective, rows }

def reference : Parse (Reference Float) := do
  skipBlankLines
  let objective ← number .objectiveValue
  endLine
  skipBlankLines
  let values ← numbers
  if values.isEmpty then refuse .solutionVector
  endLine
  endOfFile
  return { objective, values }

end Parse

/-- The value of a parser that succeeds, without the tokens left. -/
def ofResult {β : Type} : EStateM.Result ParseError (List Token) β → Except ParseError β
  | .ok x _ => .ok x
  | .error e _ => .error e

def Input.parsedEvent (x : Input) : Event Float :=
  .parsed x.numConstraints x.numVariables

def parseInput (source : String) : Except ParseError Input :=
  ofResult (Parse.input (tokenize source))

def parseReference (source : String) : Except ParseError (Reference Float) :=
  ofResult (Parse.reference (tokenize source))

end PenaltySimplex.Format
