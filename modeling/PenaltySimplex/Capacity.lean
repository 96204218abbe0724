/-!
# PenaltySimplex.Capacity

How much room a list or a buffer has. What would take more is refused before any of it is made.

Sizes are words of 64 bits. A program is built so that a product past the largest word is refused,
or so that it wraps around.
-/

namespace PenaltySimplex

/-- The most bytes that a list or a buffer may take, the largest signed word of 64 bits. -/
def maxBytes : Nat := 0x7fffffffffffffff

/-- There is room for a number of entries, each of `size` bytes. -/
def hasRoom (count size : Nat) : Bool :=
  count * size ≤ maxBytes

/-- Bytes of an entry that is a number. -/
def numberBytes : Nat := 8

/-- Bytes set aside for an entry that is a text, a list or a record. -/
def recordBytes : Nat := 64

/-- How many words of 64 bits there are. -/
def wordCount : Nat := 0x10000000000000000

/-- What becomes of a product that is no word: it is refused, or only its lowest bits are kept. -/
inductive Overflow where
  | refuses
  | wraps
deriving Repr, DecidableEq

/-- The product of two words. -/
def Overflow.mul? : Overflow → Nat → Nat → Option Nat
  | .refuses, m, n => if m * n < wordCount then some (m * n) else none
  | .wraps, m, n => some (m * n % wordCount)

theorem Overflow.mul?_eq_some {m n : Nat} (o : Overflow) (h : m * n < wordCount) :
    o.mul? m n = some (m * n) := by
  cases o with
  | refuses => exact if_pos h
  | wraps => exact congrArg some (Nat.mod_eq_of_lt h)

theorem lt_of_hasRoom {count : Nat} (h : hasRoom count numberBytes = true) : count < wordCount := by
  have hle : count * 8 ≤ 0x7fffffffffffffff := of_decide_eq_true h
  unfold wordCount
  omega

end PenaltySimplex
