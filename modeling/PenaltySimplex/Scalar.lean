/-!
# PenaltySimplex.Scalar

The arithmetic that every computation of the library is written over.

* `Scalar` has the field operations, a decidable order and the test for a finite value; it is
  all that tableaus, pivots and row pruning need.
* `RootScalar` adds what an orthogonal factorization needs: square roots and signs.

The program runs on `Float`. Each operation is named once, in the order in which it is performed,
so the same definitions can be read over any ordered field, where every value is finite.
-/

namespace PenaltySimplex

/-- Ordered arithmetic. On `Float` a comparison with NaN is false and `==` identifies the two
zeros. -/
class Scalar (α : Type) extends Zero α, One α, Neg α, Add α, Sub α, Mul α, Div α, LT α, LE α,
    BEq α where
  abs : α → α
  /-- Neither infinite nor NaN. -/
  isFinite : α → Bool
  decidableLT : DecidableLT α
  decidableLE : DecidableLE α

attribute [reducible, instance] Scalar.decidableLT Scalar.decidableLE

class RootScalar (α : Type) extends Scalar α where
  sqrt : α → α
  /-- One with the sign of its argument; a zero has a sign of its own. -/
  signum : α → α

namespace Scalar

variable {α : Type} [Scalar α]

/-- Left-to-right sum from negative zero, the neutral element that leaves every other value as
it is, positive zero included. -/
def sum (xs : List α) : α :=
  xs.foldl (· + ·) (-0)

/-- Largest of zero and the entries; an entry that compares with nothing is passed over. -/
def maximum (xs : List α) : α :=
  xs.foldl (fun most x => if most < x then x else most) 0

@[simp] theorem sum_nil : sum ([] : List α) = -0 := rfl

@[simp] theorem maximum_nil : maximum ([] : List α) = 0 := rfl

end Scalar

instance : Scalar Float where
  zero := 0
  one := 1
  abs := Float.abs
  isFinite := Float.isFinite
  decidableLT := inferInstance
  decidableLE := inferInstance

instance : RootScalar Float where
  sqrt := Float.sqrt
  signum x := if x.isNaN then x else if x.toBits >>> 63 = 1 then -1 else 1

end PenaltySimplex
