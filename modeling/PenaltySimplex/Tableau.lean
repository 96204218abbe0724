import PenaltySimplex.Capacity
import PenaltySimplex.Decimal.Text
import PenaltySimplex.ModelError
import PenaltySimplex.Scalar

/-!
# PenaltySimplex.Tableau

Dense simplex tableaus. Row 0 is the objective row, the other rows are constraints; the last
column is the right-hand side.

The entries stand row by row in one `Buffer`, which is full for a `Tableau`. `entry` is the view in
which everything else is stated: a function of row and column. `ofFn` builds a tableau from such a
function, and `entry_ofFn` reads it back. Places outside the buffer read as zero; `entry?` tells
them apart.
-/

namespace PenaltySimplex

/-- A shape, and a buffer that may be too short for it. -/
structure Buffer (α : Type) where
  numRows : Nat
  numColumns : Nat
  data : Array α
deriving DecidableEq

structure Tableau (α : Type) extends Buffer α where
  size_data : data.size = numRows * numColumns
deriving DecidableEq

namespace Buffer

variable {α : Type}

/-- Zeros for a shape. Their number is a product of words, and there must be room for them. -/
def zeros? [Zero α] (o : Overflow) (numRows numColumns : Nat) : Option (Buffer α) := do
  let size ← o.mul? numRows numColumns
  if hasRoom size numberBytes then
    return { numRows, numColumns, data := Array.replicate size 0 }
  else none

/-- The entry at a place of the buffer; a column past the end is in the next row. -/
def entry? (b : Buffer α) (i j : Nat) : Option α :=
  b.data[i * b.numColumns + j]?

/-- The largest row number, that of a word of 64 bits. -/
def maxRow : Nat := 0xffffffffffffffff

/-- The buffer reaches to the end of a row, which is where the next row starts. Without columns
it reaches to every row that has a next one. -/
def reachesRow (b : Buffer α) (i : Nat) : Bool :=
  i < maxRow && (i + 1) * b.numColumns ≤ b.data.size

def row? (b : Buffer α) (i : Nat) : Option (List α) :=
  if b.reachesRow i then
    some (b.data.extract (i * b.numColumns) ((i + 1) * b.numColumns)).toList
  else none

/-- The objective row without its right-hand side, if there is one. -/
def reducedCosts? (b : Buffer α) : Option (List α) :=
  if b.numColumns = 0 then none else (b.row? 0).map fun r => r.dropLast

def rhs? (b : Buffer α) (i : Nat) : Option α :=
  if b.numColumns = 0 then none else b.entry? i (b.numColumns - 1)

end Buffer

namespace Tableau

variable {α : Type}

def entry [Zero α] (t : Tableau α) (i j : Nat) : α :=
  t.data.getD (i * t.numColumns + j) 0

/-- The tableau with the entries of a function. -/
def ofFn (numRows numColumns : Nat) (f : Nat → Nat → α) : Tableau α where
  numRows
  numColumns
  data := Array.ofFn fun k : Fin (numRows * numColumns) =>
    f (k.val / numColumns) (k.val % numColumns)
  size_data := by simp

@[simp] theorem numRows_ofFn (m n : Nat) (f : Nat → Nat → α) : (ofFn m n f).numRows = m := rfl

@[simp] theorem numColumns_ofFn (m n : Nat) (f : Nat → Nat → α) :
    (ofFn m n f).numColumns = n := rfl

theorem flat_lt {m n i j : Nat} (hi : i < m) (hj : j < n) : i * n + j < m * n :=
  calc i * n + j < i * n + n := by omega
    _ = (i + 1) * n := by rw [Nat.add_mul, Nat.one_mul]
    _ ≤ m * n := Nat.mul_le_mul_right n hi

theorem entry_ofFn [Zero α] {m n i j : Nat} (f : Nat → Nat → α) (hi : i < m) (hj : j < n) :
    (ofFn m n f).entry i j = f i j := by
  have hlt := flat_lt hi hj
  have hdiv : (i * n + j) / n = i := by
    rw [Nat.mul_comm, Nat.mul_add_div (by omega), Nat.div_eq_of_lt hj, Nat.add_zero]
  have hmod : (i * n + j) % n = j := by
    rw [Nat.mul_comm, Nat.mul_add_mod, Nat.mod_eq_of_lt hj]
  simp [entry, ofFn, Array.getD, hlt, hdiv, hmod]

def zeros [Zero α] (numRows numColumns : Nat) : Tableau α :=
  ofFn numRows numColumns fun _ _ => 0

/-- A tableau of zeros, if there is room for its entries. -/
def zeros? [Zero α] (numRows numColumns : Nat) : Option (Tableau α) :=
  if hasRoom (numRows * numColumns) numberBytes then some (zeros numRows numColumns) else none

theorem toBuffer_zeros [Zero α] (m n : Nat) :
    (zeros m n : Tableau α).toBuffer = ⟨m, n, Array.replicate (m * n) 0⟩ := by
  simp only [zeros, ofFn, Buffer.mk.injEq, true_and]
  apply Array.ext <;> simp

/-- A shape whose number of entries is a word has the same zeros in every build. -/
theorem zeros?_of_lt [Zero α] (o : Overflow) {m n : Nat} (h : m * n < wordCount) :
    Buffer.zeros? o m n = (zeros? m n : Option (Tableau α)).map toBuffer := by
  rw [Buffer.zeros?, o.mul?_eq_some h, zeros?]
  by_cases hroom : hasRoom (m * n) numberBytes = true <;> simp [toBuffer_zeros, hroom]

/-- Where products are refused, these are the zeros of all shapes. -/
theorem zeros?_refuses [Zero α] (m n : Nat) :
    Buffer.zeros? .refuses m n = (zeros? m n : Option (Tableau α)).map toBuffer := by
  by_cases h : m * n < wordCount
  · exact zeros?_of_lt .refuses h
  · have hroom : ¬hasRoom (m * n) numberBytes = true := fun hroom => h (lt_of_hasRoom hroom)
    rw [Buffer.zeros?, Overflow.mul?, if_neg h, zeros?, if_neg hroom]
    rfl

def numConstraints (t : Tableau α) : Nat := t.numRows - 1

def numVariables (t : Tableau α) : Nat := t.numColumns - 1

def rhsColumn (t : Tableau α) : Nat := t.numColumns - 1

/-- Numbers of rows, columns, constraints and variables and the column of the right-hand side, of
a tableau that has a row and a column. -/
def dimensions? (t : Tableau α) : Option (List Nat) :=
  if t.numRows = 0 ∨ t.numColumns = 0 then none
  else some [t.numRows, t.numColumns, t.numConstraints, t.numVariables, t.rhsColumn]

/-- Number of variable columns before those of the starting basis. -/
def numStructural (t : Tableau α) : Nat := t.numVariables - t.numConstraints

def rhs [Zero α] (t : Tableau α) (i : Nat) : α :=
  t.entry i t.rhsColumn

/-- The negated right-hand side of the objective row. -/
def objectiveValue [Zero α] [Neg α] (t : Tableau α) : α :=
  -t.rhs 0

def row [Zero α] (t : Tableau α) (i : Nat) : List α :=
  (List.range t.numColumns).map (t.entry i)

def rows [Zero α] (t : Tableau α) : List (List α) :=
  (List.range t.numRows).map t.row

/-- The rows, if a list has room for them. A tableau without columns may have more. -/
def rows? [Zero α] (t : Tableau α) : Option (List (List α)) :=
  if hasRoom t.numRows recordBytes then some t.rows else none

section Access

variable [Zero α]

/-- Replaces the entry at a place of the buffer, if there is one. -/
def set? (t : Tableau α) (i j : Nat) (x : α) : Option (Tableau α) :=
  if i * t.numColumns + j < t.data.size then
    some
      { t with
        data := t.data.setIfInBounds (i * t.numColumns + j) x
        size_data := by simp [t.size_data] }
  else none

def scaleRow? [Mul α] (t : Tableau α) (i : Nat) (x : α) : Option (Tableau α) :=
  if t.reachesRow i then
    some (ofFn t.numRows t.numColumns fun k j =>
      if k = i then t.entry k j * x else t.entry k j)
  else none

end Access

variable [Scalar α]

/-- A tableau from its rows, which must have one length and finite entries. -/
def ofRows (rows : List (List α)) : Except ModelError (Tableau α) :=
  let width := (rows.headD []).length
  if width = 0 then .error .emptyTableau
  else match rows.find? (fun row => row.length != width) with
  | some row => .error (.dimensionMismatch .tableauRow width row.length)
  | none =>
    if rows.all (·.all Scalar.isFinite) then
      .ok (ofFn rows.length width fun i j => (rows.getD i []).getD j 0)
    else .error (.nonFinite .tableau)

/-- Same shape and equal entries; NaN equals nothing. -/
def equals (t u : Tableau α) : Bool :=
  t.numRows == u.numRows && t.numColumns == u.numColumns &&
    (t.data.toList.zip u.data.toList).all fun (x, y) => x == y

/-- Divides row `r` by its entry in column `c` and clears that column from every other row. A
row with a zero there is left as it is. -/
def pivot (t : Tableau α) (r c : Nat) : Tableau α :=
  let p := t.entry r c
  ofFn t.numRows t.numColumns fun i j =>
    if i = r then t.entry r j / p
    else
      let factor := t.entry i c
      if factor == 0 then t.entry i j else t.entry i j - factor * (t.entry r j / p)

@[simp] theorem numRows_pivot (t : Tableau α) (r c : Nat) : (t.pivot r c).numRows = t.numRows :=
  rfl

@[simp] theorem numColumns_pivot (t : Tableau α) (r c : Nat) :
    (t.pivot r c).numColumns = t.numColumns := rfl

theorem entry_pivot {t : Tableau α} {r c i j : Nat} (hi : i < t.numRows)
    (hj : j < t.numColumns) :
    (t.pivot r c).entry i j =
      if i = r then t.entry r j / t.entry r c
      else if t.entry i c == 0 then t.entry i j
      else t.entry i j - t.entry i c * (t.entry r j / t.entry r c) := by
  rw [pivot, entry_ofFn _ hi hj]

/-- One line per row, four decimal places in columns of ten characters. -/
def text (t : Tableau Float) : String :=
  String.join <| t.rows.map fun row =>
    " ".intercalate (row.map fun x => Decimal.padLeft 10 (Decimal.fixed 4 x)) ++ "\n"

end Tableau

end PenaltySimplex
