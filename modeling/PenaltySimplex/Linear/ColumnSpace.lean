import PenaltySimplex.Linear.Vector

/-!
# PenaltySimplex.Linear.ColumnSpace

An orthonormal basis of the column space of a matrix, from a factorization by Householder
reflections with column pivoting, and the distance of a vector from that space.

At each step the column with the entry of largest magnitude is swapped to the front, a reflection
takes it to a multiple of the first unit vector, and the reflected remaining columns, without
their first entries, are the matrix of the next step. Column pivoting keeps the large diagonal
entries in front, so the columns of the orthogonal factor that belong to diagonal entries above
the tolerance span the column space.
-/

namespace PenaltySimplex.Linear

variable {α : Type} [RootScalar α]

/-- A reflection and the diagonal entry of the triangular factor that it makes. A column that
vanishes numerically is left as it is: its reflection is not `active`. -/
structure Reflection (α : Type) where
  axis : List α
  diagonal : α
  active : Bool

namespace Reflection

/-- The reflection that takes a column to a multiple of the first unit vector. The axis is
normalized twice, as the first division can leave it short of unit length. -/
def ofColumn : List α → Reflection α
  | [] => ⟨[], 0, false⟩
  | c :: cs =>
    let square := dot (c :: cs) (c :: cs)
    let length := RootScalar.sqrt square
    let modulus := if 0 ≤ c then c else -c
    let signed := (if 0 ≤ c then 1 else -1) * length
    let factor := (1 + 1) * (square + modulus * length)
    let axis := (c + signed) :: cs
    if factor == 0 then ⟨axis, signed, false⟩
    else
      let axis := divide axis (RootScalar.sqrt factor)
      ⟨divide axis (norm axis), -signed, true⟩

/-- The reflection across the axis, with the sign that makes the diagonal nonnegative. -/
def apply (r : Reflection α) (v : List α) : List α :=
  let s := RootScalar.signum r.diagonal
  combine (dot r.axis v * (s * -(1 + 1))) r.axis s v

end Reflection

/-- The number of the column with the entry of largest magnitude; columns and entries are read
in order and only a strictly larger entry takes over. -/
def largestColumn (columns : List (List α)) : Nat :=
  let first := match columns with
    | (x :: _) :: _ => Scalar.abs x
    | _ => 0
  (columns.zipIdx.foldl
    (fun best (column, j) => column.foldl
      (fun (most, k) x => if most < Scalar.abs x then (Scalar.abs x, j) else (most, k)) best)
    (first, 0)).2

def swapToFront (columns : List (List α)) (j : Nat) : List (List α) :=
  match columns with
  | [] => []
  | first :: rest => if j = 0 then first :: rest
    else rest.getD (j - 1) [] :: rest.set (j - 1) first

/-- The first `steps` reflections of the factorization. -/
def reflections : Nat → List (List α) → List (Reflection α)
  | 0, _ => []
  | steps + 1, columns =>
    match swapToFront columns (largestColumn columns) with
    | [] => []
    | column :: rest =>
      let r := Reflection.ofColumn column
      r :: reflections steps (rest.map fun x => (if r.active then r.apply x else x).tail)

/-- The columns of the orthogonal factor: each reflection is applied to the first unit vector
and to the later columns, which start with a zero. -/
def orthogonalColumns : List (Reflection α) → List (List α)
  | [] => []
  | r :: rs =>
    let unit := 1 :: List.replicate (r.axis.length - 1) 0
    (unit :: (orthogonalColumns rs).map (0 :: ·)).map r.apply

structure ColumnSpace (α : Type) where
  rank : Nat
  basis : List (List α)

def columnSpace (tolerance : α) (width : Nat) (rows : List (List α)) : ColumnSpace α :=
  let rs := reflections (min rows.length width) (columns width rows)
  let rank := rs.countP fun r => tolerance < Scalar.abs r.diagonal
  ⟨rank, (orthogonalColumns rs).take rank⟩

/-- The orthogonal projection onto the span of an orthonormal basis. -/
def project (basis : List (List α)) (v : List α) : List α :=
  basis.foldl (fun sum q => combine (dot q v) q 1 sum) (List.replicate v.length 0)

/-- Distance from a vector to the span of an orthonormal basis. -/
def distance (basis : List (List α)) (v : List α) : α :=
  norm (List.zipWith (· - ·) v (project basis v))

/-- How far a right-hand side is from a column space, and the rank if a factorization was
needed to tell. -/
structure Residual (α : Type) where
  rank : Option Nat
  distance : α

/-- The residual of a vector against the column space of a matrix given by its width and rows.
A matrix without rows leaves nothing to measure, one without columns has the zero space. -/
def residual (tolerance : α) (width : Nat) (rows : List (List α)) (v : List α) : Residual α :=
  if rows.length = 0 then ⟨none, 0⟩
  else if width = 0 then ⟨none, norm v⟩
  else
    let space := columnSpace tolerance width rows
    ⟨some space.rank, distance space.basis v⟩

end PenaltySimplex.Linear
