import PenaltySimplex.Tableau

/-!
# PenaltySimplex.Proofs.BufferPivot

The pivot in place, on the buffer that holds a tableau row by row.

* `pivotBuffer?`: divides the row of the pivot, splits the buffer around it and clears the column
  piece by piece before and after it. Every index and every place to split at is checked; one that
  is out of range gives no buffer.
* `toList_data`: the buffer is the rows one after the other.
* `pivotBuffer?_eq`, `pivotInPlace?_eq`: within the tableau no check fails, and the buffer is that
  of `Tableau.pivot`.
-/

namespace PenaltySimplex

variable {α : Type}

/-- A list before and from a place, which must not be past its end. -/
def splitAt? (k : Nat) (xs : List α) : Option (List α × List α) :=
  if k ≤ xs.length then some (xs.splitAt k) else none

/-- Changes so many pieces of one width from the front of a list; what follows them stays. -/
def mapPieces? (width : Nat) (f : List α → Option (List α)) : Nat → List α → Option (List α)
  | 0, xs => some xs
  | count + 1, xs => do
    let (piece, rest) ← splitAt? width xs
    let changed ← f piece
    let after ← mapPieces? width f count rest
    return changed ++ after

/-- Changes every whole piece of a list; a width of zero makes no pieces. -/
def mapChunks? (width : Nat) (f : List α → Option (List α)) (xs : List α) : Option (List α) :=
  if width = 0 then none else mapPieces? width f (xs.length / width) xs

theorem splitAt?_append {k : Nat} {xs : List α} (h : xs.length = k) (ys : List α) :
    splitAt? k (xs ++ ys) = some (xs, ys) := by
  subst h
  simp [splitAt?, List.splitAt_eq]

section Uniform

variable {ι : Type} {width : Nat} {f : List α → Option (List α)} {is : List ι}
  {before after : ι → List α}

theorem length_flatMap_of_uniform (h : ∀ i ∈ is, (before i).length = width) :
    (is.flatMap before).length = is.length * width := by
  induction is with
  | nil => simp
  | cons i is ih =>
    rw [List.flatMap_cons, List.length_append, h i (by simp),
      ih fun k hk => h k (List.mem_cons_of_mem i hk), List.length_cons, Nat.succ_mul, Nat.add_comm]

theorem mapPieces?_flatMap (hlength : ∀ i ∈ is, (before i).length = width)
    (hf : ∀ i ∈ is, f (before i) = some (after i)) :
    mapPieces? width f is.length (is.flatMap before) = some (is.flatMap after) := by
  induction is with
  | nil => rfl
  | cons i is ih =>
    have hrest := ih (fun k hk => hlength k (List.mem_cons_of_mem i hk))
      (fun k hk => hf k (List.mem_cons_of_mem i hk))
    simp [mapPieces?, splitAt?_append (hlength i (by simp)), hf i (by simp), hrest]

theorem mapChunks?_flatMap (hwidth : 0 < width) (hlength : ∀ i ∈ is, (before i).length = width)
    (hf : ∀ i ∈ is, f (before i) = some (after i)) :
    mapChunks? width f (is.flatMap before) = some (is.flatMap after) := by
  have hcount : (is.flatMap before).length / width = is.length := by
    rw [length_flatMap_of_uniform hlength, Nat.mul_div_cancel _ hwidth]
  rw [mapChunks?, if_neg (Nat.ne_of_gt hwidth), hcount, mapPieces?_flatMap hlength hf]

end Uniform

section Pivot

variable [Scalar α]

/-- Subtracts the multiple of the pivot row that clears a column; a zero there changes nothing. -/
def clear? (column : Nat) (pivotRow row : List α) : Option (List α) := do
  let factor ← row[column]?
  return if factor == 0 then row else row.zipWith (fun x p => x - factor * p) pivotRow

/-- The pivot on a buffer of rows of one width. -/
def pivotBuffer? (width row column : Nat) (data : List α) : Option (List α) := do
  let pivot ← data[row * width + column]?
  let (before, rest) ← splitAt? (row * width) data
  let (pivotRow, after) ← splitAt? width rest
  let pivotRow := pivotRow.map (· / pivot)
  let before ← mapChunks? width (clear? column pivotRow) before
  let after ← mapChunks? width (clear? column pivotRow) after
  return before ++ pivotRow ++ after

def Buffer.pivotInPlace? (b : Buffer α) (row column : Nat) : Option (Buffer α) := do
  let data ← pivotBuffer? b.numColumns row column b.data.toList
  return { b with data := data.toArray }

/-- The pivot in place keeps a tableau only if its buffer is still full. -/
def Tableau.pivotInPlace? (t : Tableau α) (row column : Nat) : Option (Tableau α) := do
  let b ← t.toBuffer.pivotInPlace? row column
  if h : b.data.size = b.numRows * b.numColumns then return ⟨b, h⟩ else none

end Pivot

namespace Tableau

section Rows

variable [Zero α] (t : Tableau α)

@[simp] theorem length_row (i : Nat) : (t.row i).length = t.numColumns := by
  simp [row]

theorem getElem?_row {i j : Nat} (hj : j < t.numColumns) : (t.row i)[j]? = some (t.entry i j) := by
  simp [row, hj]

theorem getElem?_toList {i j : Nat} (hi : i < t.numRows) (hj : j < t.numColumns) :
    t.data.toList[i * t.numColumns + j]? = some (t.entry i j) := by
  have hlt : i * t.numColumns + j < t.data.size := t.size_data ▸ flat_lt hi hj
  simp [entry, Array.getD, hlt]

theorem row_eq_take_drop {i : Nat} (hi : i < t.numRows) :
    t.row i = (t.data.toList.drop (i * t.numColumns)).take t.numColumns := by
  apply List.ext_getElem?
  intro j
  rw [List.getElem?_take]
  split
  · rename_i hj
    rw [getElem?_row t hj, List.getElem?_drop, getElem?_toList t hi hj]
  · rename_i hj
    exact List.getElem?_eq_none (by rw [length_row]; omega)

theorem take_toList {m : Nat} (hm : m ≤ t.numRows) :
    t.data.toList.take (m * t.numColumns) = (List.range m).flatMap t.row := by
  induction m with
  | zero => simp
  | succ m ih =>
    rw [Nat.succ_mul, List.take_add, ih (by omega), List.range_succ, List.flatMap_append,
      ← row_eq_take_drop t (by omega)]
    simp

/-- The buffer holds the rows one after the other. -/
theorem toList_data : t.data.toList = (List.range t.numRows).flatMap t.row := by
  rw [← take_toList t (Nat.le_refl _), ← t.size_data, ← Array.length_toList, List.take_length]

/-- The rows before and after one of them. -/
theorem toList_data_split {r : Nat} (hr : r < t.numRows) :
    t.data.toList = (List.range r).flatMap t.row ++
      (t.row r ++ (List.range' (r + 1) (t.numRows - (r + 1))).flatMap t.row) := by
  obtain ⟨k, hk⟩ : ∃ k, t.numRows = r + (k + 1) := ⟨t.numRows - (r + 1), by omega⟩
  have hrange : List.range (r + (k + 1)) = List.range r ++ r :: List.range' (r + 1) k := by
    rw [List.range_eq_range', List.range_eq_range', ← List.range'_append_1, Nat.zero_add,
      List.range'_succ]
  rw [show t.numRows - (r + 1) = k by omega, toList_data, hk, hrange, List.flatMap_append,
    List.flatMap_cons]

end Rows

variable [Scalar α] {t : Tableau α} {r c : Nat}

/-- The pivot row is divided by the pivot. -/
theorem row_pivot_self (hr : r < t.numRows) :
    (t.pivot r c).row r = (t.row r).map (· / t.entry r c) := by
  unfold row
  rw [List.map_map]
  apply List.map_congr_left
  intro j hj
  simp [entry_pivot hr (List.mem_range.1 hj)]

/-- The other rows are cleared. -/
theorem clear?_row {i : Nat} (hi : i < t.numRows) (hc : c < t.numColumns) (hne : i ≠ r) :
    clear? c ((t.row r).map (· / t.entry r c)) (t.row i) = some ((t.pivot r c).row i) := by
  have hrow : (t.pivot r c).row i =
      if t.entry i c == 0 then t.row i
      else (t.row i).zipWith (fun x p => x - t.entry i c * p)
        ((t.row r).map (· / t.entry r c)) := by
    unfold row
    rw [List.map_map, List.zipWith_map, List.zipWith_self]
    split
    · apply List.map_congr_left
      intro j hj
      simp_all [entry_pivot hi (List.mem_range.1 hj)]
    · apply List.map_congr_left
      intro j hj
      simp_all [entry_pivot hi (List.mem_range.1 hj)]
  simp [clear?, getElem?_row t hc, hrow]

/-- Every index is in range, and the buffer becomes that of the tableau after the pivot. -/
theorem pivotBuffer?_eq (hr : r < t.numRows) (hc : c < t.numColumns) :
    pivotBuffer? t.numColumns r c t.data.toList = some (t.pivot r c).data.toList := by
  have hpivot : t.data.toList[r * t.numColumns + c]? = some (t.entry r c) :=
    getElem?_toList t hr hc
  have hbefore : ((List.range r).flatMap t.row).length = r * t.numColumns := by
    rw [length_flatMap_of_uniform fun i _ => length_row t i, List.length_range]
  have hclear (is : List Nat) (his : ∀ i ∈ is, i < t.numRows ∧ i ≠ r) :
      mapChunks? t.numColumns (clear? c ((t.row r).map (· / t.entry r c))) (is.flatMap t.row) =
        some (is.flatMap (t.pivot r c).row) :=
    mapChunks?_flatMap (Nat.zero_lt_of_lt hc) (fun i _ => length_row t i)
      fun i hi => clear?_row (his i hi).1 hc (his i hi).2
  have hfront := hclear (List.range r) (by
    intro i hi
    have hlt := List.mem_range.1 hi
    omega)
  have hback := hclear (List.range' (r + 1) (t.numRows - (r + 1))) (by
    intro i hi
    have hplace := List.mem_range'_1.1 hi
    omega)
  have hresult := toList_data_split (t.pivot r c) hr
  rw [row_pivot_self hr, numRows_pivot] at hresult
  rw [pivotBuffer?, hpivot, toList_data_split t hr, hresult]
  simp [splitAt?_append hbefore, splitAt?_append (length_row t r), hfront, hback]

theorem pivotInPlace?_toBuffer (hr : r < t.numRows) (hc : c < t.numColumns) :
    t.toBuffer.pivotInPlace? r c = some (t.pivot r c).toBuffer := by
  rw [Buffer.pivotInPlace?, pivotBuffer?_eq hr hc]
  rfl

theorem pivotInPlace?_eq (hr : r < t.numRows) (hc : c < t.numColumns) :
    t.pivotInPlace? r c = some (t.pivot r c) := by
  rw [pivotInPlace?, pivotInPlace?_toBuffer hr hc]
  exact dif_pos (t.pivot r c).size_data

end Tableau
end PenaltySimplex
