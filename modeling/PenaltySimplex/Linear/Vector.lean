import PenaltySimplex.Scalar

/-!
# PenaltySimplex.Linear.Vector

Lists of scalars as vectors: inner product, length and combinations, entry by entry.

An inner product of fewer than eight products is added from left to right. A longer one is added
in eight interleaved sums, which are joined before the products that are left over; the fewer
additions in a row, the smaller the rounding error.
-/

namespace PenaltySimplex.Linear

variable {α : Type}

section Arithmetic

variable [Scalar α]

/-- Adds the products to eight running sums in turn, then joins the sums and adds the rest. -/
def laneSum (s₀ s₁ s₂ s₃ s₄ s₅ s₆ s₇ : α) : List α → α
  | p₀ :: p₁ :: p₂ :: p₃ :: p₄ :: p₅ :: p₆ :: p₇ :: ps =>
    laneSum (s₀ + p₀) (s₁ + p₁) (s₂ + p₂) (s₃ + p₃) (s₄ + p₄) (s₅ + p₅) (s₆ + p₆) (s₇ + p₇) ps
  | ps => ps.foldl (· + ·) (0 + (s₀ + s₄) + (s₁ + s₅) + (s₂ + s₆) + (s₃ + s₇))

def dot (u v : List α) : α :=
  laneSum 0 0 0 0 0 0 0 0 (List.zipWith (· * ·) u v)

def combine (a : α) (u : List α) (b : α) (v : List α) : List α :=
  List.zipWith (fun x y => a * x + b * y) u v

def divide (v : List α) (a : α) : List α :=
  v.map (· / a)

@[simp] theorem length_combine (a : α) (u : List α) (b : α) (v : List α) :
    (combine a u b v).length = min u.length v.length := by
  simp [combine]

theorem length_combine_eq {n : Nat} {a b : α} {u v : List α} (hu : u.length = n)
    (hv : v.length = n) : (combine a u b v).length = n := by
  simp [hu, hv]

@[simp] theorem length_divide (v : List α) (a : α) : (divide v a).length = v.length := by
  simp [divide]

def columns (width : Nat) (rows : List (List α)) : List (List α) :=
  (List.range width).map fun j => rows.map fun row => row.getD j 0

end Arithmetic

/-- Euclidean length, without scaling: squares may overflow or vanish. -/
def norm [RootScalar α] (v : List α) : α :=
  RootScalar.sqrt (dot v v)

end PenaltySimplex.Linear
