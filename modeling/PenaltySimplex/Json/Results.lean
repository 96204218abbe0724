import PenaltySimplex.Json.Library
import PenaltySimplex.Json.Printer
import PenaltySimplex.Json.Reader

/-!
# PenaltySimplex.Json.Results

A library for the runs, and the result types in its forms.

A record is written as an object with its fields in order. It is read from an object with each
field at most once, in any order and among other members; an optional field may be missing or
null, the others must be there. A record is also read from an array of exactly its fields. A name
is written as a string, and read from a string or an object whose one member it names with the
value null.
-/

namespace PenaltySimplex.Json

variable {α : Type}

/-! ## Reading parts -/

def membersNamed (name : String) (members : List (Option String × Json)) : List Json :=
  members.filterMap fun (key, value) => if key = some name then some value else none

/-- The value of a field, or nothing for a missing one; a repeated field is an error. -/
def fieldOf (name : String) (members : List (Option String × Json)) : Option (Option Json) :=
  match membersNamed name members with
  | [] => some none
  | [value] => some (some value)
  | _ => none

/-- The values of the named fields. Every key must name characters. -/
def fieldsOf (names : List String) : Json → Option (List (Option Json))
  | .array items => if items.length = names.length then some (items.map some) else none
  | .object members =>
    if members.all fun (key, _) => key.isSome then names.mapM fun name => fieldOf name members
    else none
  | _ => none

def toBool? : Json → Option Bool
  | .bool b => some b
  | _ => none

/-- A number literal is read as the nearest double, which must be finite. -/
def toFloat? : Json → Option Float
  | .number literal =>
    ((Decimal.readNumeral literal).map Decimal.Numeral.toFloat).filter Float.isFinite
  | _ => none

/-- A count is a literal of digits alone, below `2 ^ 64`. -/
def toCount? : Json → Option Nat
  | .number literal => if literal.toList.all Char.isDigit then Decimal.readCount literal else none
  | _ => none

def toList? (decode : Json → Option α) : Json → Option (List α)
  | .array items => items.mapM decode
  | _ => none

def toOption? (decode : Json → Option α) : Json → Option (Option α)
  | .null => some none
  | v => (decode v).map some

def toName? (names : List (String × α)) : Json → Option α
  | .text (some s) => names.lookup s
  | .object [(some s, .null)] => names.lookup s
  | _ => none

/-- The library of the runs. What is proved of results is proved of every library that keeps the
laws of `Library.IsLawful`, not of these readers and printers. -/
def library : Library where
  write := compact
  read? := read
  float := ⟨ofFloat, toFloat?, none⟩
  count := ⟨ofNat, toCount?, none⟩
  flag := ⟨.bool, toBool?, none⟩
  list form := ⟨fun xs => .array (xs.map form.encode), toList? form.decode?, none⟩
  option form := ⟨ofOption form.encode, toOption? form.decode?, some none⟩
  names name all := ⟨fun a => ofString (name a), toName? (all.map fun a => (name a, a)), none⟩
  ofFields := ofMembers
  fields? := fieldsOf

/-! ## Result types -/

def ofStatus : Status → Json := library.status.encode

def toStatus? : Json → Option Status := library.status.decode?

def ofComparison : Comparison → Json := library.comparison.encode

def toComparison? : Json → Option Comparison := library.comparison.decode?

def ofSolution : Solution Float → Json := library.solution.encode

def toSolution? : Json → Option (Solution Float) := library.solution.decode?

def ofReference : Reference Float → Json := library.reference.encode

def toReference? : Json → Option (Reference Float) := library.reference.decode?

def ofVerification : Verification Float → Json := library.verification.encode

def toVerification? : Json → Option (Verification Float) := library.verification.decode?

def ofSpan : Format.Span → Json := library.span.encode

def toSpan? : Json → Option Format.Span := library.span.decode?

end PenaltySimplex.Json
