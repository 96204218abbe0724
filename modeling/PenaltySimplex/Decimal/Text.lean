import PenaltySimplex.Decimal.Shortest

/-!
# PenaltySimplex.Decimal.Text

Written forms of a double.

* `plain`: shortest digits, never an exponent (`0.0000001`, `5`).
* `scientific`: shortest digits with an exponent (`1e6`, `1.5e-3`).
* `fixed n`: exactly `n` decimal places of the exact value, a half going to the even neighbour.
* `scientificTo n`: one digit, `n` places and an exponent, rounded in the same way.

A negative zero keeps its sign; the other values are `NaN`, `inf` and `-inf`.
-/

namespace PenaltySimplex.Decimal

def signText (negative : Bool) : List Char :=
  if negative then ['-'] else []

def zeros (n : Nat) : List Char :=
  List.replicate n '0'

def integerText (n : Int) : List Char :=
  signText (n < 0) ++ digits n.natAbs

/-- `ds * 10 ^ p` without an exponent; a point is written only before a further digit. -/
def positional (ds : List Char) (p : Int) : List Char :=
  let places := (-p).toNat
  if 0 ≤ p then ds ++ zeros p.toNat
  else if places < ds.length then
    ds.take (ds.length - places) ++ '.' :: ds.drop (ds.length - places)
  else '0' :: '.' :: zeros (places - ds.length) ++ ds

/-- First digit, point, further digits; no point after a lone digit. -/
def leading (ds : List Char) : List Char :=
  match ds with
  | [] => []
  | [d] => [d]
  | d :: rest => d :: '.' :: rest

/-- `n / 10 ^ places` with all its places. -/
def placed (places n : Nat) : List Char :=
  let ds := digits n
  let ds := zeros (places + 1 - ds.length) ++ ds
  if places = 0 then ds
  else ds.take (ds.length - places) ++ '.' :: ds.drop (ds.length - places)

/-- The three forms of a double, given the text of a finite one. -/
def render (x : Float) (finite : Nat → Int → List Char) : String :=
  match Binary.ofFloat x with
  | .nan => "NaN"
  | .infinity negative => String.ofList (signText negative ++ "inf".toList)
  | .finite negative m q => String.ofList (signText negative ++ finite m q)

def plain (x : Float) : String :=
  render x fun m q =>
    if m = 0 then ['0']
    else
      let s := shortest .up m q
      positional (digits s.digits) s.exponent

def scientific (x : Float) : String :=
  render x fun m q =>
    if m = 0 then "0e0".toList
    else
      let s := shortest .up m q
      let ds := digits s.digits
      leading ds ++ 'e' :: integerText (s.exponent + ds.length - 1)

def fixed (places : Nat) (x : Float) : String :=
  render x fun m q =>
    let s := scaled m q places
    placed places (roundHalfEven s.num s.den)

def scientificTo (places : Nat) (x : Float) : String :=
  render x fun m q =>
    if m = 0 then placed places 0 ++ "e0".toList
    else
      let e := magnitude m q
      let s := scaled m q (places + 1 - e)
      let n := roundHalfEven s.num s.den
      if n < powerOfTen (places + 1) then placed places n ++ 'e' :: integerText (e - 1)
      else placed places (n / 10) ++ 'e' :: integerText e

/-- Pads on the left to a width in characters. -/
def padLeft (width : Nat) (text : String) : String :=
  String.ofList (List.replicate (width - text.length) ' ') ++ text

/-- Pads on the right to a width in characters. -/
def padRight (width : Nat) (text : String) : String :=
  text ++ String.ofList (List.replicate (width - text.length) ' ')

end PenaltySimplex.Decimal
