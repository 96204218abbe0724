import PenaltySimplex.Linear.Vector

/-!
# PenaltySimplex.Linear.RowSelection

Which rows of a matrix to keep: first a cheap pass that leaves out zero rows and multiples of
earlier rows, then an orthogonalization that leaves out every row that depends on rows kept
before it.

Rows travel with their numbers, so both passes return numbers of the given rows.
-/

namespace PenaltySimplex.Linear

variable {α : Type}

section Pruning

variable [Scalar α]

/-- Some entry reaches the tolerance. -/
def isSubstantial (tolerance : α) (row : List α) : Bool :=
  row.any fun x => tolerance ≤ Scalar.abs x

/-- The first column where a row exceeds the tolerance. -/
def anchor? (tolerance : α) (row : List α) : Option Nat :=
  row.findIdx? fun x => tolerance < Scalar.abs x

/-- Every entry of `later` is within the tolerance of a multiple of `earlier`, the factor taken
at the anchor of `earlier`. -/
def isNearMultiple (tolerance : α) (earlier later : List α) : Bool :=
  match anchor? tolerance earlier with
  | none => false
  | some k =>
    let ratio := later.getD k 0 / earlier.getD k 0
    (later.zip earlier).all fun (x, y) => Scalar.abs (x - ratio * y) < tolerance

/-- The substantial rows that are no near multiple of an earlier substantial row. -/
def prune (tolerance : α) (rows : List (List α × Nat)) : List (List α × Nat) :=
  let substantial := rows.filter fun (row, _) => isSubstantial tolerance row
  substantial.filter fun (row, i) =>
    !substantial.any fun (earlier, k) => decide (k < i) && isNearMultiple tolerance earlier row

end Pruning

variable [RootScalar α]

/-- Takes the component along each vector of an orthonormal list away, one after the other. -/
def orthogonalize (basis : List (List α)) (v : List α) : List α :=
  basis.foldl (fun v e => combine (-(dot e v)) e 1 v) v

theorem orthogonalize_cons (e : List α) (basis : List (List α)) (v : List α) :
    orthogonalize (e :: basis) v = orthogonalize basis (combine (-(dot e v)) e 1 v) :=
  rfl

/-- The rows at a distance above the tolerance from the span of the rows kept before them. A
second orthogonalization removes what rounding leaves of the first. -/
def independentFrom (tolerance : α) (basis : List (List α)) :
    List (List α × Nat) → List (List α × Nat)
  | [] => []
  | (row, i) :: rest =>
    let v := orthogonalize basis (orthogonalize basis row)
    if tolerance < norm v then
      (row, i) :: independentFrom tolerance (basis ++ [divide v (norm v)]) rest
    else independentFrom tolerance basis rest

def independentRows (tolerance : α) (rows : List (List α × Nat)) : List (List α × Nat) :=
  independentFrom tolerance [] rows

end PenaltySimplex.Linear
