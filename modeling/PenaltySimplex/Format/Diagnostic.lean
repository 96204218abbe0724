import PenaltySimplex.Format.Parser

/-!
# PenaltySimplex.Format.Diagnostic

Messages for an editor about a text that cannot be read: at most one, which marks the unexpected
token or, where there is none, the whole text.
-/

namespace PenaltySimplex.Format

structure Diagnostic where
  line : Option Nat
  span : Span
  severity : String
  message : String
deriving Repr, DecidableEq

def Diagnostic.ofError (source : String) (e : ParseError) : Diagnostic where
  line := e.line?
  span := e.span?.getD ⟨0, source.utf8ByteSize⟩
  severity := "error"
  message := e.message

def diagnostics {β : Type} (source : String) : Except ParseError β → List Diagnostic
  | .ok _ => []
  | .error e => [.ofError source e]

def validateInput (source : String) : List Diagnostic :=
  diagnostics source (parseInput source)

def validateReference (source : String) : List Diagnostic :=
  diagnostics source (parseReference source)

end PenaltySimplex.Format
