import PenaltySimplex.Tableau

/-!
# PenaltySimplex.Simplex.Rule

Which variable enters the basis and which row it takes.

* Entering: the first column with a reduced cost below `-eps`.
* Leaving: the minimum-ratio test over the constraint rows with an entry above `eps` in that
  column. Rows are read from the top; a row takes over from the best so far when its ratio is
  smaller by more than `eps`, or within `eps` and its basic variable has the smaller index.

A `Dictionary` is a tableau with the basic variable of each constraint row. `choose` says what
happens to it next and `exchange` does it.
-/

namespace PenaltySimplex

/-- A tableau and the basic variables of its constraint rows, in row order. -/
structure Dictionary (α : Type) where
  tableau : Tableau α
  basis : List Nat
deriving DecidableEq

inductive Choice where
  /-- No column can enter. -/
  | optimal
  /-- A column can enter and no row bounds it. -/
  | unbounded (column : Nat)
  /-- A column enters in a constraint row, counted from one. -/
  | exchange (row column : Nat)
deriving Repr, DecidableEq

namespace Tableau

variable {α : Type} [Scalar α]

def entering? (eps : α) (t : Tableau α) : Option Nat :=
  (List.range t.numVariables).find? fun j => t.entry 0 j < -eps

/-- The better of two rows for the ratio test, each with its ratio. -/
def betterRow (eps : α) (basis : List Nat) (best next : Nat × α) : Nat × α :=
  let smaller := next.2 < best.2 - eps
  let tieWins := Scalar.abs (next.2 - best.2) < eps ∧
    basis.getD (next.1 - 1) 0 < basis.getD (best.1 - 1) 0
  if smaller ∨ tieWins then next else best

theorem betterRow_eq_or (eps : α) (basis : List Nat) (best next : Nat × α) :
    betterRow eps basis best next = best ∨ betterRow eps basis best next = next := by
  unfold betterRow
  dsimp only
  split
  · exact Or.inr rfl
  · exact Or.inl rfl

/-- The constraint rows that bound a column, counted from one, with their ratios. -/
def ratios (eps : α) (t : Tableau α) (column : Nat) : List (Nat × α) :=
  (List.range' 1 t.numConstraints).filterMap fun i =>
    let x := t.entry i column
    if x ≤ eps then none else some (i, t.rhs i / x)

def leaving? (eps : α) (t : Tableau α) (basis : List Nat) (column : Nat) : Option Nat :=
  match t.ratios eps column with
  | [] => none
  | first :: rest => some (rest.foldl (betterRow eps basis) first).1

end Tableau

namespace Dictionary

variable {α : Type} [Scalar α]

/-- A tableau whose last variable columns, as many as there are constraints, are basic. -/
def start (t : Tableau α) : Dictionary α where
  tableau := t
  basis := List.range' t.numStructural t.numConstraints

def choose (eps : α) (d : Dictionary α) : Choice :=
  match d.tableau.entering? eps with
  | none => .optimal
  | some column =>
    match d.tableau.leaving? eps d.basis column with
    | none => .unbounded column
    | some row => .exchange row column

def exchange (d : Dictionary α) (row column : Nat) : Dictionary α where
  tableau := d.tableau.pivot row column
  basis := d.basis.set (row - 1) column

def value (d : Dictionary α) (j : Nat) : α :=
  d.basis.zipIdx.foldl (fun x (k, i) => if k = j then d.tableau.rhs (i + 1) else x) 0

/-- The values of the columns before those of the starting basis. -/
def values (d : Dictionary α) : List α :=
  (List.range d.tableau.numStructural).map d.value

end Dictionary

end PenaltySimplex
