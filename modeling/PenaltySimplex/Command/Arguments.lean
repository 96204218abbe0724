import PenaltySimplex.Decimal.Numeral
import PenaltySimplex.Solver
import PenaltySimplex.Verification

/-!
# PenaltySimplex.Command.Arguments

The command line: `solve` and `check`, each with a file and flags.

A flag with a value is written `--flag value`, `--flag=value` or, by its letter, `-f value`,
`-fvalue` or `-f=value`. After `--` every argument is a file. An argument that starts with `-` is
never taken for the value after a space, unless it is a lone `-`. No flag may be given twice, and
each value must be of its flag's kind; paths are not empty.

What a `solve` promises is said of every request, not of the command line that it was read from.
-/

namespace PenaltySimplex.Command

inductive ValueKind where
  /-- No value: the flag is there or not. -/
  | switch
  | path
  | text
  | float
  | count
deriving Repr, DecidableEq

structure Flag where
  name : String
  letter : Option Char
  kind : ValueKind
deriving Repr, DecidableEq

def ValueKind.accepts (value : String) : ValueKind → Bool
  | .switch => false
  | .path => !value.isEmpty
  | .text => true
  | .float => (Decimal.readFloat value).isSome
  | .count => (Decimal.readCount value).isSome

/-- What a command line binds: values of flags by name, and files. -/
structure Bindings where
  values : List (String × String)
  files : List String
deriving Repr, DecidableEq

namespace Bindings

def empty : Bindings := ⟨[], []⟩

def value? (b : Bindings) (name : String) : Option String :=
  b.values.lookup name

def bind (b : Bindings) (name value : String) : Option Bindings :=
  if (b.value? name).isSome then none
  else some { b with values := b.values ++ [(name, value)] }

def bindValue (b : Bindings) (flag : Flag) (value : String) : Option Bindings :=
  if flag.kind.accepts value then b.bind flag.name value else none

def bindSwitch (b : Bindings) (flag : Flag) : Option Bindings :=
  b.bind flag.name ""

def bindFile (b : Bindings) (file : String) : Option Bindings :=
  if b.files.isEmpty && ValueKind.path.accepts file then some { b with files := [file] } else none

def bindFiles (b : Bindings) (files : List String) : Option Bindings :=
  files.foldlM bindFile b

end Bindings

inductive Argument where
  /-- The mark after which all arguments are files. -/
  | endOfFlags
  | long (name : String) (value : Option String)
  | short (letter : Char) (value : Option String)
  | plain (text : String)
deriving Repr, DecidableEq

namespace Argument

def ofLong (cs : List Char) : Argument :=
  let name := String.ofList (cs.takeWhile (· != '='))
  match cs.dropWhile (· != '=') with
  | [] => .long name none
  | _ :: value => .long name (some (String.ofList value))

/-- What follows a letter; an equals sign before a value is dropped. -/
def ofShort (letter : Char) : List Char → Argument
  | [] => .short letter none
  | '=' :: value => .short letter (some (String.ofList value))
  | value => .short letter (some (String.ofList value))

def ofString (arg : String) : Argument :=
  match arg.toList with
  | ['-', '-'] => .endOfFlags
  | '-' :: '-' :: cs => ofLong cs
  | '-' :: c :: cs => ofShort c cs
  | _ => .plain arg

def isHelp : Argument → Bool
  | .long "help" none | .short 'h' _ => true
  | _ => false

/-- The flag that an argument names and the value attached to it. -/
def flag? (flags : List Flag) : Argument → Option (Flag × Option String)
  | .long name value => (flags.find? (·.name == name)).map (·, value)
  | .short letter value => (flags.find? (·.letter == some letter)).map (·, value)
  | _ => none

end Argument

inductive Scanned where
  | bindings (b : Bindings)
  | help
deriving Repr, DecidableEq

/-- Reads the arguments of one command from left to right; nothing for a usage error. -/
def scan (flags : List Flag) (b : Bindings) : List String → Option Scanned
  | [] => some (.bindings b)
  | arg :: rest =>
    let argument := Argument.ofString arg
    if argument.isHelp then some .help
    else match argument with
    | .endOfFlags => (b.bindFiles rest).map .bindings
    | .plain file =>
      match b.bindFile file with
      | some b => scan flags b rest
      | none => none
    | argument =>
      match argument.flag? flags with
      | none => none
      | some (flag, attached) =>
        if flag.kind = .switch then
          match attached, b.bindSwitch flag with
          | none, some b => scan flags b rest
          | _, _ => none
        else match attached with
        | some value =>
          match b.bindValue flag value with
          | some b => scan flags b rest
          | none => none
        | none =>
          match rest with
          | [] => none
          | value :: rest =>
            match Argument.ofString value with
            | .plain value =>
              match b.bindValue flag value with
              | some b => scan flags b rest
              | none => none
            | _ => none

/-! ## Requests -/

inductive ReportFormat where
  | pretty
  | json
deriving Repr, DecidableEq

structure SolveRequest where
  file : String
  expected : Option String
  tolerance : Float
  output : Option String
  format : ReportFormat
  settings : Settings

structure CheckRequest where
  file : String
  rankTolerance : Float

inductive Request where
  | solve (r : SolveRequest)
  | check (r : CheckRequest)
  | help

def rankToleranceFlag : Flag := ⟨"rank-tolerance", none, .float⟩

def solveFlags : List Flag :=
  [⟨"expected", some 'e', .path⟩,
   ⟨"tolerance", none, .float⟩,
   ⟨"output", some 'o', .path⟩,
   ⟨"format", some 'f', .text⟩,
   ⟨"big-m", none, .float⟩,
   ⟨"pivot-tolerance", none, .float⟩,
   rankToleranceFlag,
   ⟨"max-iterations", none, .count⟩,
   ⟨"no-pruning", none, .switch⟩]

def checkFlags : List Flag := [rankToleranceFlag]

namespace Bindings

def float (b : Bindings) (name : String) (default : Float) : Float :=
  ((b.value? name).bind Decimal.readFloat).getD default

def count (b : Bindings) (name : String) (default : Nat) : Nat :=
  ((b.value? name).bind Decimal.readCount).getD default

def settings (b : Bindings) : Settings where
  penalty := b.float "big-m" defaultPenalty
  pivotTolerance := b.float "pivot-tolerance" defaultPivotTolerance
  rankTolerance := b.float "rank-tolerance" defaultRankTolerance
  maxIterations := b.count "max-iterations" defaultMaxIterations
  prunes := (b.value? "no-pruning").isNone

def toSolveRequest (b : Bindings) (file : String) : SolveRequest where
  file
  expected := b.value? "expected"
  tolerance := b.float "tolerance" defaultVerifyTolerance
  output := b.value? "output"
  format := if b.value? "format" = some "json" then .json else .pretty
  settings := b.settings

def toCheckRequest (b : Bindings) (file : String) : CheckRequest where
  file
  rankTolerance := b.float "rank-tolerance" defaultRankTolerance

end Bindings

def readCommand (flags : List Flag) (make : Bindings → String → Request) (args : List String) :
    Option Request :=
  match scan flags .empty args with
  | none => none
  | some .help => some .help
  | some (.bindings b) => b.files.head?.map (make b)

/-- What a command line asks for; nothing for a usage error. -/
def readRequest : List String → Option Request
  | [] => none
  | "solve" :: args => readCommand solveFlags (fun b file => .solve (b.toSolveRequest file)) args
  | "check" :: args => readCommand checkFlags (fun b file => .check (b.toCheckRequest file)) args
  | ["help"] | ["help", "solve"] | ["help", "check"] | ["help", "help"] => some .help
  | arg :: _ => if (Argument.ofString arg).isHelp then some .help else none

end PenaltySimplex.Command
