import PenaltySimplex.Decimal.Text

/-!
# PenaltySimplex.Json.Value

JSON values. A number is kept as its literal, so no digit is lost; an object is kept as its
members in order, repeated keys included.

A string can hold an escaped surrogate that belongs to no pair and so names no character. Such a
string is well formed as long as nobody asks for its characters: it is `none`.
-/

namespace PenaltySimplex

inductive Json where
  | null
  | bool (b : Bool)
  | number (literal : String)
  | text (s : Option String)
  | array (items : List Json)
  | object (members : List (Option String × Json))
deriving Repr

namespace Json

def ofString (s : String) : Json := .text (some s)

def ofNat (n : Nat) : Json := .number (String.ofList (Decimal.digits n))

def ofMembers (members : List (String × Json)) : Json :=
  .object (members.map fun (key, value) => (some key, value))

def ofOption {α : Type} (encode : α → Json) : Option α → Json
  | none => .null
  | some a => encode a

/-- Members whose decimal exponent is in this range are written without an exponent. -/
def isPositional (exponent : Int) : Bool :=
  -5 ≤ exponent && exponent ≤ 15

/-- The literal of a finite double: shortest digits, a half to even, at least one digit after
the point unless there is an exponent, and the exponent with its sign. -/
def floatLiteral (x : Float) : String :=
  Decimal.render x fun m q =>
    if m = 0 then "0.0".toList
    else
      let s := Decimal.shortest .even m q
      let ds := Decimal.digits s.digits
      let exponent := s.exponent + ds.length - 1
      if isPositional exponent then
        Decimal.positional ds s.exponent ++ (if 0 ≤ s.exponent then ".0".toList else [])
      else
        let sign := if 0 ≤ exponent then ['+'] else []
        Decimal.leading ds ++ 'e' :: sign ++ Decimal.integerText exponent

/-- A double that is not finite has no literal and is null. -/
def ofFloat (x : Float) : Json :=
  if x.isFinite then .number (floatLiteral x) else .null

end Json

end PenaltySimplex
