/-!
# PenaltySimplex.Decimal.Binary

A double taken apart into the number it stands for, and exact integer tools on such numbers.

* `Binary.ofFloat` reads sign, mantissa and exponent off the bits; `m * 2 ^ q` is then exact.
* `Binary.natural?` is the value of a double that is a natural number.
* `roundHalfEven` rounds a quotient of natural numbers to the nearest integer, a half going to
  the even neighbour.
* `magnitude` is the position of the leading decimal digit.
-/

namespace PenaltySimplex.Decimal

/-- What a double stands for. A finite value is `± mantissa * 2 ^ exponent`; zeros keep their
sign. -/
inductive Binary where
  | nan
  | infinity (negative : Bool)
  | finite (negative : Bool) (mantissa : Nat) (exponent : Int)
deriving Repr, DecidableEq

def powerOfTwo (n : Nat) : Nat := Nat.pow 2 n

def powerOfTen (n : Nat) : Nat := Nat.pow 10 n

def leastNormal : Nat := 0x10000000000000

namespace Binary

/-- The subnormal and the smallest normal doubles share the exponent `-1074`. -/
def ofBits (bits : Nat) : Binary :=
  let negative := decide (0x8000000000000000 ≤ bits)
  let biased : Nat := bits / leastNormal % 2048
  let fraction := bits % leastNormal
  if biased = 2047 then
    if fraction = 0 then .infinity negative else .nan
  else if biased = 0 then
    .finite negative fraction (-1074)
  else
    .finite negative (leastNormal + fraction) ((biased : Int) - 1075)

def ofFloat (x : Float) : Binary :=
  ofBits x.toBits.toNat

/-- The value of a double that is zero or a positive integer. -/
def natural? : Binary → Option Nat
  | .finite negative mantissa exponent =>
    if negative && mantissa != 0 then none
    else if 0 ≤ exponent then some (mantissa * powerOfTwo exponent.toNat)
    else if mantissa % powerOfTwo (-exponent).toNat = 0 then
      some (mantissa / powerOfTwo (-exponent).toNat)
    else none
  | _ => none

end Binary

/-- Nearest integer to `num / den`, a half going to the even neighbour. -/
def roundHalfEven (num den : Nat) : Nat :=
  let low := num / den
  let rest := 2 * (num % den)
  if rest < den then low
  else if den < rest then low + 1
  else low + low % 2

theorem roundHalfEven_exact {num den : Nat} (h : den ∣ num) (hd : 0 < den) :
    roundHalfEven num den = num / den := by
  simp [roundHalfEven, Nat.mod_eq_zero_of_dvd h, hd]

/-- `⌊m * 2 ^ q * 10 ^ p⌋` and what is missing, over a common denominator. -/
structure Scaled where
  num : Nat
  den : Nat

/-- `m * 2 ^ q * 10 ^ p` as a quotient of natural numbers. -/
def scaled (m : Nat) (q p : Int) : Scaled where
  num := m * powerOfTwo q.toNat * powerOfTen p.toNat
  den := powerOfTwo (-q).toNat * powerOfTen (-p).toNat

/-- Decimal digits of a natural number, most significant first. -/
def digits (n : Nat) : List Char :=
  Nat.toDigits 10 n

/-- The least `e` with `m * 2 ^ q < 10 ^ e`, for a positive value `m * 2 ^ q` of at least
`10 ^ -330`; every positive double is larger than that. -/
def magnitude (m : Nat) (q : Int) : Int :=
  let s := scaled m q 330
  (digits (s.num / s.den)).length - 330

end PenaltySimplex.Decimal
