import PenaltySimplex.Proofs.CheckedRun
import PenaltySimplex.Proofs.TableauProgram

/-!
# PenaltySimplex.Proofs.Elimination

The pivot in place is a step of Gauss-Jordan elimination.

* `pivotByEntries?`: the pivot as single writes to the buffer, each of them to a place that is in
  range. The factor of a row is read before the row is overwritten, its own column included.
* `foldlM_set?_ofFn`: the invariant of the writes to a row. The columns before the next one are
  written, and every other place of the buffer is as it was.
* `foldlM_clearRow?`: the invariant of the rows. The pivot row and the rows not yet reached are as
  they were.
* `pivotByEntries?_eq`: whatever the arithmetic, the writes give the tableau of `Tableau.pivot`.
* `pivot_eliminates`: over an exact field its entries are those of the elimination.
-/

namespace PenaltySimplex
namespace Tableau

variable {α : Type}

section Writes

variable [Scalar α]

/-- Overwrites a row from left to right. What a column gets may depend on the buffer as it then
stands. -/
def overwriteRow? (i : Nat) (f : Tableau α → Nat → Option α) (t : Tableau α) :
    Option (Tableau α) :=
  (List.range t.numColumns).foldlM (fun u j => do u.set? i j (← f u j)) t

def divideRow? (r : Nat) (pivot : α) (t : Tableau α) : Option (Tableau α) :=
  t.overwriteRow? r fun u j => do return (← u.entry? r j) / pivot

/-- Clears a column from a row, whose factor is read once; a zero there leaves the row alone. -/
def clearRow? (r c : Nat) (t : Tableau α) (i : Nat) : Option (Tableau α) := do
  let factor ← t.entry? i c
  if factor == 0 then return t
  t.overwriteRow? i fun u j => do return (← u.entry? i j) - factor * (← u.entry? r j)

/-- Divides the row of the pivot, then clears the rows before it and the rows after it. -/
def pivotByEntries? (t : Tableau α) (r c : Nat) : Option (Tableau α) := do
  let pivot ← t.entry? r c
  let divided ← t.divideRow? r pivot
  (List.range r ++ List.range' (r + 1) (t.numRows - (r + 1))).foldlM (clearRow? r c) divided

end Writes

/-! ## Single writes -/

section Entries

variable {m n : Nat} {f g : Nat → Nat → α}

theorem ofFn_congr (h : ∀ i < m, ∀ j < n, f i j = g i j) : ofFn m n f = ofFn m n g := by
  have hdata (k : Fin (m * n)) : f (k / n) (k % n) = g (k / n) (k % n) := by
    have hn : 0 < n := Nat.pos_of_mul_pos_left (Nat.zero_lt_of_lt k.isLt)
    exact h _ (Nat.div_lt_of_lt_mul (Nat.mul_comm m n ▸ k.isLt)) _ (Nat.mod_lt _ hn)
  simp [ofFn, hdata]

/-- A write changes one entry. -/
theorem set?_ofFn {i j : Nat} (hi : i < m) (hj : j < n) (x : α) :
    (ofFn m n f).set? i j x = some (ofFn m n fun k l => if k = i ∧ l = j then x else f k l) := by
  have hlt : i * (ofFn m n f).numColumns + j < (ofFn m n f).data.size := by
    rw [(ofFn m n f).size_data]
    exact flat_lt hi hj
  have hplace (k : Nat) : i * n + j = k ↔ k / n = i ∧ k % n = j := by
    rw [Nat.div_mod_unique (Nat.zero_lt_of_lt hj), Nat.mul_comm n i, Nat.add_comm j]
    exact ⟨fun h => ⟨h, hj⟩, fun h => h.1⟩
  rw [set?, if_pos hlt, Option.some_inj, Tableau.mk.injEq, Buffer.mk.injEq]
  refine ⟨rfl, rfl, ?_⟩
  apply Array.ext
  · simp [ofFn]
  · intro k hk hk'
    rw [Array.getElem_setIfInBounds (by simpa using hk)]
    simp [ofFn, hplace]

section Row

/-- What `f` reads for a column is not written before it: with the other rows and the rest of row
`i` as in `g`, it gives the entry of `h`. -/
def ReadsAhead (m n i : Nat) (g : Nat → Nat → α) (f : Tableau α → Nat → Option α)
    (h : Nat → α) : Prop :=
  ∀ j < n, ∀ before : Nat → Nat → α,
    (∀ k < m, ∀ l < n, k ≠ i ∨ j ≤ l → before k l = g k l) → f (ofFn m n before) j = some (h j)

variable {i : Nat} {f : Tableau α → Nat → Option α} {h : Nat → α}

/-- After the writes to the columns before `count` the other places are as they were. -/
theorem foldlM_set?_ofFn (hi : i < m) (hf : ReadsAhead m n i g f h) {count : Nat}
    (hcount : count ≤ n) :
    (List.range count).foldlM (fun u j => do u.set? i j (← f u j)) (ofFn m n g) =
      some (ofFn m n fun k l => if k = i ∧ l < count then h l else g k l) := by
  induction count with
  | zero => simp
  | succ count ih =>
    have hread := hf count hcount (fun k l => if k = i ∧ l < count then h l else g k l) (by
      intro k _ l _ hne
      rw [if_neg (by omega)])
    rw [List.range_succ, List.foldlM_append, ih (Nat.le_of_succ_le hcount)]
    simp only [Option.bind_eq_bind, Option.bind_some, List.foldlM_cons, List.foldlM_nil, hread,
      set?_ofFn hi hcount, Option.pure_def, Option.some_inj]
    apply ofFn_congr
    intro k _ l _
    by_cases hl : l = count
    · simp [hl]
    · have hlt : l < count + 1 ↔ l < count := by omega
      simp [hl, hlt]

theorem overwriteRow?_ofFn (hi : i < m) (hf : ReadsAhead m n i g f h) :
    (ofFn m n g).overwriteRow? i f =
      some (ofFn m n fun k l => if k = i then h l else g k l) := by
  rw [overwriteRow?, numColumns_ofFn, foldlM_set?_ofFn hi hf (Nat.le_refl n), Option.some_inj]
  apply ofFn_congr
  intro k _ l hl
  simp [hl]

end Row

variable [Scalar α]

/-- A tableau is made of its entries. -/
theorem ofFn_entry (t : Tableau α) : ofFn t.numRows t.numColumns t.entry = t := by
  obtain ⟨⟨m, n, data⟩, hsize⟩ := t
  simp only [ofFn, Tableau.mk.injEq, Buffer.mk.injEq, true_and]
  apply Array.ext
  · simp [hsize]
  · intro k hk hk'
    simp [entry, Nat.div_add_mod', hk']

theorem entry?_ofFn {i j : Nat} (hi : i < m) (hj : j < n) :
    Buffer.entry? (ofFn m n f).toBuffer i j = some (f i j) := by
  rw [entry?_eq _ hi hj, entry_ofFn f hi hj]

end Entries

/-! ## Rows -/

section Rows

variable [Scalar α] {m n r c : Nat} {f : Nat → Nat → α}

theorem divideRow?_ofFn (hr : r < m) (pivot : α) :
    (ofFn m n f).divideRow? r pivot =
      some (ofFn m n fun k l => if k = r then f r l / pivot else f k l) := by
  apply overwriteRow?_ofFn hr
  intro j hj before hbefore
  simp [entry?_ofFn hr hj, hbefore r hr j hj (Or.inr (Nat.le_refl j))]

/-- An entry after the multiple of the pivot row that clears a column is subtracted. -/
def clearedEntry (factor x p : α) : α :=
  if factor == 0 then x else x - factor * p

theorem clearRow?_ofFn {i : Nat} (hr : r < m) (hi : i < m) (hc : c < n) (hne : r ≠ i) :
    (ofFn m n f).clearRow? r c i =
      some (ofFn m n fun k l => if k = i then clearedEntry (f i c) (f i l) (f r l) else f k l) := by
  rw [clearRow?, entry?_ofFn hi hc]
  simp only [Option.bind_eq_bind, Option.bind_some]
  split
  · rename_i hzero
    simp only [Option.pure_def, Option.some_inj]
    apply ofFn_congr
    intro k _ l _
    by_cases hk : k = i
    · simp [hk, clearedEntry, hzero]
    · simp [hk]
  · rename_i hzero
    simp only [clearedEntry, hzero]
    apply overwriteRow?_ofFn hi
    intro j hj before hbefore
    -- the row holds its old entry from this column on, and the pivot row is never written
    have hown := hbefore i hi j hj (Or.inr (Nat.le_refl j))
    have hpivot := hbefore r hr j hj (Or.inl hne)
    simp [entry?_ofFn hi hj, entry?_ofFn hr hj, hown, hpivot]

/-- Rows other than the pivot row are cleared, each once; the others are left alone. -/
theorem foldlM_clearRow? (hr : r < m) (hc : c < n) {is : List Nat} (hnodup : is.Nodup)
    (his : ∀ i ∈ is, i < m ∧ i ≠ r) :
    is.foldlM (clearRow? r c) (ofFn m n f) =
      some (ofFn m n fun k l =>
        if k ∈ is then clearedEntry (f k c) (f k l) (f r l) else f k l) := by
  induction is generalizing f with
  | nil => simp
  | cons i is ih =>
    obtain ⟨hi, hne⟩ := his i List.mem_cons_self
    obtain ⟨hfresh, hrest⟩ := List.nodup_cons.1 hnodup
    rw [List.foldlM_cons, clearRow?_ofFn hr hi hc hne.symm]
    simp only [Option.bind_eq_bind, Option.bind_some]
    rw [ih hrest fun k hk => his k (List.mem_cons_of_mem i hk), Option.some_inj]
    apply ofFn_congr
    intro k _ l _
    by_cases hk : k = i
    · simp [hk, hfresh]
    · simp [hk, hne.symm]

end Rows

/-! ## The pivot -/

theorem pivotByEntries?_eq [Scalar α] (t : Tableau α) {r c : Nat} (hr : r < t.numRows)
    (hc : c < t.numColumns) : t.pivotByEntries? r c = some (t.pivot r c) := by
  let others := List.range r ++ List.range' (r + 1) (t.numRows - (r + 1))
  have hmem (i : Nat) : i ∈ others ↔ i < t.numRows ∧ i ≠ r := by
    simp only [others, List.mem_append, List.mem_range, List.mem_range'_1]
    omega
  have hnodup : others.Nodup := by
    refine List.Nodup.append List.nodup_range List.nodup_range' ?_
    intro i hi hi'
    simp only [List.mem_range, List.mem_range'_1] at hi hi'
    omega
  have hdivide := divideRow?_ofFn (n := t.numColumns) (f := t.entry) hr (t.entry r c)
  rw [ofFn_entry] at hdivide
  rw [pivotByEntries?, entry?_eq t hr hc]
  simp only [Option.bind_eq_bind, Option.bind_some, hdivide]
  rw [foldlM_clearRow? hr hc hnodup fun i hi => (hmem i).1 hi, pivot, Option.some_inj]
  apply ofFn_congr
  intro i hi j _
  by_cases hir : i = r
  · simp [hir, hmem]
  · simp [hir, hmem, hi, clearedEntry]

/-- The pivot in place is the step of Gauss-Jordan elimination: neither the writes one by one nor
the pieces around the pivot row leave the buffer, the pivot row is divided by the pivot, the
multiple of it that clears the column is subtracted from every other row, and the column becomes
a unit vector. -/
theorem pivot_eliminates {K : Type} [Field K] [LinearOrder K] (t : Tableau K) {r c : Nat}
    (hr : r < t.numRows) (hc : c < t.numColumns) (hpivot : t.entry r c ≠ 0) :
    t.pivotByEntries? r c = some (t.pivot r c) ∧ t.pivotInPlace? r c = some (t.pivot r c) ∧
      (t.pivot r c).data.size = t.data.size ∧ (t.pivot r c).numRows = t.numRows ∧
      (t.pivot r c).numColumns = t.numColumns ∧
      (∀ j < t.numColumns, (t.pivot r c).entry r j = t.entry r j / t.entry r c) ∧
      (∀ i < t.numRows, i ≠ r → ∀ j < t.numColumns,
        (t.pivot r c).entry i j = t.entry i j - t.entry i c * t.entry r j / t.entry r c) ∧
      ∀ i < t.numRows, (t.pivot r c).entry i c = if i = r then 1 else 0 := by
  refine ⟨t.pivotByEntries?_eq hr hc, t.pivotInPlace?_eq hr hc, ?_, rfl, rfl, ?_, ?_, ?_⟩
  · rw [(t.pivot r c).size_data, t.size_data, numRows_pivot, numColumns_pivot]
  · intro j hj
    rw [entry_pivot_eq hr hj, if_pos rfl]
  · intro i hi hne j hj
    rw [entry_pivot_eq hi hj, if_neg hne, mul_div_assoc]
  · intro i hi
    rw [entry_pivot_eq hi hc, div_self hpivot, mul_one, sub_self]

/-- An interior pivot row, with a row above it to clear and one below it that has a zero there. -/
theorem pivot_eliminates_interior :
    let t : Tableau ℚ :=
      .ofFn 3 4 fun i j => ([[-1, -2, 0, 0], [2, 4, 1, 8], [3, 0, 1, 6]].getD i []).getD j 0
    1 < t.numRows ∧ 1 < t.numColumns ∧ t.entry 1 1 ≠ 0 ∧
      ∃ u, t.pivotByEntries? 1 1 = some u ∧ t.pivotInPlace? 1 1 = some u ∧
        u.rows = [[0, 0, 1 / 2, 4], [1 / 2, 1, 1 / 4, 2], [3, 0, 1, 6]] ∧
        ∀ i < 3, u.entry i 1 = if i = 1 then 1 else 0 := by
  intro t
  have hpivot : t.entry 1 1 ≠ 0 := by decide +kernel
  obtain ⟨hentries, hpieces, _, _, _, _, _, hunit⟩ :=
    pivot_eliminates t (by decide : 1 < 3) (by decide : 1 < 4) hpivot
  exact ⟨by decide, by decide, hpivot, _, hentries, hpieces, by decide +kernel, hunit⟩

end Tableau
end PenaltySimplex
