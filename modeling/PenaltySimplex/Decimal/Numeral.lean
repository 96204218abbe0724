/-!
# PenaltySimplex.Decimal.Numeral

Numbers as they are written, and the double nearest to each.

A numeral is an optional sign, digits with at most one point and at least one digit on either
side of it, and an optional exponent. `readFloat` accepts a numeral, or `inf`, `infinity` or
`nan` in any case after an optional sign; a numeral too large for a double is infinite.
-/

namespace PenaltySimplex.Decimal

/-- `± digits * 10 ^ exponent`. -/
structure Numeral where
  negative : Bool
  digits : Nat
  exponent : Int
deriving Repr, DecidableEq

/-- The nearest double, ties to even. -/
def Numeral.toFloat (n : Numeral) : Float :=
  let magnitude := Float.ofScientific n.digits (n.exponent < 0) n.exponent.natAbs
  if n.negative then -magnitude else magnitude

def digitsValue (ds : List Char) : Nat :=
  ds.foldl (fun n d => 10 * n + (d.toNat - '0'.toNat)) 0

def takeSign : List Char → Bool × List Char
  | '-' :: cs => (true, cs)
  | '+' :: cs => (false, cs)
  | cs => (false, cs)

def takePlaces : List Char → List Char × List Char
  | '.' :: cs => (cs.takeWhile Char.isDigit, cs.dropWhile Char.isDigit)
  | cs => ([], cs)

/-- The exponent at the end of a numeral: nothing, or a mark with a sign and digits. -/
def readExponent : List Char → Option Int
  | [] => some 0
  | c :: cs =>
    if c = 'e' ∨ c = 'E' then
      let (negative, ds) := takeSign cs
      if ds ≠ [] ∧ ds.all Char.isDigit then
        some (if negative then -(digitsValue ds : Int) else digitsValue ds)
      else none
    else none

def readUnsigned (negative : Bool) (cs : List Char) : Option Numeral :=
  let whole := cs.takeWhile Char.isDigit
  let (places, rest) := takePlaces (cs.dropWhile Char.isDigit)
  if whole = [] ∧ places = [] then none
  else
    (readExponent rest).map fun e =>
      ⟨negative, digitsValue (whole ++ places), e - places.length⟩

def readNumeral (text : String) : Option Numeral :=
  let (negative, cs) := takeSign text.toList
  readUnsigned negative cs

def readFloat (text : String) : Option Float :=
  let (negative, cs) := takeSign text.toList
  let word := String.ofList (cs.map Char.toLower)
  if word = "inf" ∨ word = "infinity" then
    some (if negative then -(1 / 0) else 1 / 0)
  else if word = "nan" then some (0 / 0)
  else (readUnsigned negative cs).map Numeral.toFloat

/-- The largest count, `2 ^ 64 - 1`. -/
def maxCount : Nat := 0xffffffffffffffff

/-- A count: digits after an optional plus sign, at most `maxCount`. -/
def readCount (text : String) : Option Nat :=
  let ds := match text.toList with
    | '+' :: cs => cs
    | cs => cs
  if ds ≠ [] ∧ ds.all Char.isDigit ∧ digitsValue ds ≤ maxCount then some (digitsValue ds) else none

end PenaltySimplex.Decimal
