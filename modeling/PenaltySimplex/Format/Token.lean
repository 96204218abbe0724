import PenaltySimplex.Decimal.Numeral

/-!
# PenaltySimplex.Format.Token

Tokens of the text formats. A span counts UTF-8 bytes from the start of the text, a line is
counted from one.
-/

namespace PenaltySimplex.Format

structure Span where
  start : Nat
  stop : Nat
deriving Repr, DecidableEq

inductive TokenKind where
  | min
  | max
  | ident
  | number
  | le
  | ge
  | eq
  | newline
  | comment
  | eof
  | error
deriving Repr, DecidableEq

structure Token where
  kind : TokenKind
  span : Span
  line : Nat
  text : String
deriving Repr, DecidableEq

namespace Token

def isComment (t : Token) : Bool := t.kind == .comment

/-- Newlines and comments, which end or fill lines without content. -/
def isBlank (t : Token) : Bool := t.kind == .newline || t.kind == .comment

/-- The finite double that the text of a token stands for. -/
def value? (t : Token) : Option Float :=
  (Decimal.readFloat t.text).filter Float.isFinite

end Token

end PenaltySimplex.Format
