import PenaltySimplex.Decimal.Binary

/-!
# PenaltySimplex.Decimal.Shortest

The fewest decimal digits that read back as the same double, and of those the digits nearest to
its value.

The reals that round to `m * 2 ^ q` reach halfway to the two neighbouring doubles, ends included
when `m` is even. For one digit, two digits and so on up to seventeen, the two multiples of the
digit's unit around the value are tried; the first unit with a hit gives the answer.
-/

namespace PenaltySimplex.Decimal

/-- `digits * 10 ^ exponent`, with no sign. -/
structure Digits where
  digits : Nat
  exponent : Int
deriving Repr, DecidableEq

inductive Tie where
  | up
  | even
deriving Repr, DecidableEq

def Tie.choose (tie : Tie) (low : Nat) : Nat :=
  match tie with
  | .up => low + 1
  | .even => low + low % 2

/-- The candidate with unit `10 ^ p`: the multiple of the unit nearest to `m * 2 ^ q`, of those
that read back.

All numbers are compared in quarters of `2 ^ q`: `one` is a quarter and `unit` is `10 ^ p`, both
scaled to integers. The distance to the lower neighbour is halved at a power of two, except for
the least normal double. -/
def candidate (tie : Tie) (m : Nat) (q p : Int) : Option Nat :=
  let unit := powerOfTen p.toNat * powerOfTwo (2 - q).toNat
  let one := powerOfTwo (q - 2).toNat * powerOfTen (-p).toNat
  let value := 4 * m * one
  let below := if m = leastNormal ∧ -1074 < q then value - one else value - 2 * one
  let above := value + 2 * one
  let readsBack (d : Nat) : Bool :=
    if m % 2 = 0 then decide (below ≤ d * unit ∧ d * unit ≤ above)
    else decide (below < d * unit ∧ d * unit < above)
  let low := value / unit
  let rest := 2 * (value % unit)
  match decide (0 < low) && readsBack low, readsBack (low + 1) with
  | true, true =>
    some (if rest < unit then low else if unit < rest then low + 1 else tie.choose low)
  | true, false => some low
  | false, true => some (low + 1)
  | false, false => none

/-- Shortest digits of the positive double `m * 2 ^ q`. -/
def shortest (tie : Tie) (m : Nat) (q : Int) : Digits :=
  let e := magnitude m q
  let found := (List.range 17).findSome? fun (k : Nat) =>
    let p := e - (k + 1)
    (candidate tie m q p).map fun d => if d = 10 then ⟨1, p + 1⟩ else ⟨d, p⟩
  found.getD ⟨0, 0⟩

end PenaltySimplex.Decimal
