import Mathlib.Data.Nat.PSub
import PenaltySimplex.Proofs.BufferPivot
import PenaltySimplex.Proofs.Run

/-!
# PenaltySimplex.Proofs.CheckedRun

The pivot loop with every index checked, whatever the arithmetic and the tolerance.

* `Buffer.solveChecked?`: the loop on a buffer and the list of basic variables. Nothing says that
  the buffer is long enough for its shape. A place outside of it or of the list, a split past the
  end and a count below zero give no result.
* `Buffer.IsMade`: the buffers that there are, of rows and of zeros. Those of zeros are too short if
  the number of entries wraps around, and then the loop leaves them (`Buffer.zeros_outOfBounds`).
* `Dictionary.HasShapeOf`: the tableau has the shape of the one at the start, and the basis has one
  variable column per constraint row. A chosen exchange keeps this (`HasShapeOf.exchange`).
* `Tableau.solveChecked?_eq`: on a full buffer no check ever fails, and the result is that of
  `Tableau.solve`.
* `Ending.IsWhole`, `Buffer.solve_inBounds`: which shapes are refused, and the shape of the ending
  for all others.

Nothing is assumed of comparisons: a tolerance below zero lets a basic column enter again, and a
column may then be basic in two rows. Places are natural numbers; in a full buffer they are below
its size, which is a word.
-/

namespace PenaltySimplex

section Checked

variable {α : Type}

/-- Replaces the element at a place, which must be in range. -/
def setAt? (xs : List α) (i : Nat) (x : α) : Option (List α) :=
  if i < xs.length then some (xs.set i x) else none

/-- What the loop works on: a buffer, and the basic variable of each constraint row. -/
structure Work (α : Type) where
  buffer : Buffer α
  basis : List Nat

/-- What the loop leaves when it stops. -/
structure Ending (α : Type) where
  stop : Stop
  buffer : Buffer α
  basis : List Nat
  values : Option (List α)
  history : List Exchange

variable [Scalar α]

/-- The basic variable of a row, counted from one. -/
def basic? (basis : List Nat) (row : Nat) : Option Nat := do
  let i ← row.ppred
  basis[i]?

/-- The basis is read for ratios within the tolerance only. -/
def winsTie? (eps : α) (basis : List Nat) (best next : Nat × α) : Option Bool :=
  if Scalar.abs (next.2 - best.2) < eps then do
    let challenger ← basic? basis next.1
    let holder ← basic? basis best.1
    return challenger < holder
  else some false

namespace Buffer

def enteringChecked? (eps : α) (b : Buffer α) : Option (Option Nat) := do
  let costs ← b.reducedCosts?
  return costs.findIdx? (· < -eps)

/-- The best row so far after one more row of the ratio test. -/
def weighRow? (b : Buffer α) (eps : α) (basis : List Nat) (column : Nat)
    (best : Option (Nat × α)) (i : Nat) : Option (Option (Nat × α)) := do
  let x ← b.entry? i column
  if x ≤ eps then return best
  let rhs ← b.rhs? i
  let next := (i, rhs / x)
  match best with
  | none => return some next
  | some best =>
    let winsTie ← winsTie? eps basis best next
    return some (if next.2 < best.2 - eps ∨ winsTie then next else best)

def leavingChecked? (eps : α) (b : Buffer α) (basis : List Nat) (column : Nat) :
    Option (Option Nat) := do
  let m ← b.numRows.ppred
  let best ← (List.range' 1 m).foldlM (b.weighRow? eps basis column) none
  return best.map (·.1)

/-- Writes the value of a basic variable to its place, if that is a structural one. -/
def writeValue? (b : Buffer α) (structural : Nat) (values : List α) (place : Nat × Nat) :
    Option (List α) :=
  if place.1 < structural then do
    let x ← b.rhs? (place.2 + 1)
    setAt? values place.1 x
  else some values

end Buffer

namespace Work

def exchangeChecked? (w : Work α) (row column : Nat) : Option (Work α) := do
  let i ← row.ppred
  let basis ← setAt? w.basis i column
  let buffer ← w.buffer.pivotInPlace? row column
  return ⟨buffer, basis⟩

def valuesChecked? (w : Work α) (structural : Nat) : Option (List α) :=
  w.basis.zipIdx.foldlM (w.buffer.writeValue? structural) (List.replicate structural 0)

def chooseChecked? (eps : α) (w : Work α) : Option Choice := do
  match ← w.buffer.enteringChecked? eps with
  | none => return .optimal
  | some column =>
    match ← w.buffer.leavingChecked? eps w.basis column with
    | none => return .unbounded column
    | some row => return .exchange row column

def runChecked? (eps : α) (structural : Nat) :
    Nat → Work α → List Exchange → Option (Ending α)
  | cap, w, history => do
    match ← w.chooseChecked? eps with
    | .optimal =>
      let values ← w.valuesChecked? structural
      return ⟨.optimal, w.buffer, w.basis, some values, history⟩
    | .unbounded column => return ⟨.unbounded column, w.buffer, w.basis, none, history⟩
    | .exchange row column =>
      match cap with
      | 0 => return ⟨.iterationLimit, w.buffer, w.basis, none, history⟩
      | cap + 1 =>
        let leaving ← basic? w.basis row
        let w ← w.exchangeChecked? row column
        w.runChecked? eps structural cap (⟨column, leaving, row⟩ :: history)

end Work

def Buffer.solveChecked? (eps : α) (cap : Nat) (b : Buffer α) :
    Option (Except ModelError (Ending α)) :=
  if b.numRows = 0 ∨ b.numColumns = 0 then some (.error .emptyTableau)
  else do
    let m ← b.numRows.ppred
    let vars ← b.numColumns.ppred
    if vars < m then return .error (.tooFewColumns m vars)
    let structural ← vars.psub m
    let ending ← Work.runChecked? eps structural cap ⟨b, List.range' structural m⟩ []
    return .ok ending

/-- The buffers that a build of the program makes: of rows, and of zeros unless their number wraps
around. -/
inductive Buffer.IsMade (o : Overflow) : Buffer α → Prop where
  | ofRows {rows : List (List α)} {t : Tableau α} (h : Tableau.ofRows rows = .ok t) :
      IsMade o t.toBuffer
  | zeros {m n : Nat} {b : Buffer α} (h : Buffer.zeros? o m n = some b)
      (hfits : o = .wraps → m * n < wordCount) : IsMade o b

end Checked

variable {α : Type} [Scalar α]

/-- A fold in which no step fails, by an invariant of what it carries along. -/
theorem foldlM_eq_some {β ι : Type} {f : β → ι → Option β} {g : β → ι → β} {P : β → Prop}
    {l : List ι} {b : β} (hb : P b)
    (hstep : ∀ b i, P b → i ∈ l → f b i = some (g b i) ∧ P (g b i)) :
    l.foldlM f b = some (l.foldl g b) ∧ P (l.foldl g b) := by
  induction l generalizing b with
  | nil => exact ⟨rfl, hb⟩
  | cons i l ih =>
    obtain ⟨hf, hg⟩ := hstep b i hb (by simp)
    obtain ⟨hrest, hlast⟩ := ih hg fun b k hb hk => hstep b k hb (List.mem_cons_of_mem i hk)
    exact ⟨by simp [hf, hrest], hlast⟩

theorem findIdx?_map_range {α : Type} (p : α → Bool) (f : Nat → α) (n : Nat) :
    ((List.range n).map f).findIdx? p = (List.range n).find? fun j => p (f j) := by
  induction n with
  | zero => rfl
  | succ n ih =>
    simp only [List.range_succ, List.map_append, List.findIdx?_append, List.find?_append, ih,
      List.length_map, List.length_range]
    cases (List.range n).find? fun j => p (f j) with
    | some j => rfl
    | none => cases hp : p (f n) <;> simp [hp]

theorem basic?_eq {basis : List Nat} {row : Nat} (hpos : 0 < row) (hle : row ≤ basis.length) :
    basic? basis row = some (basis.getD (row - 1) 0) := by
  have hlt : row - 1 < basis.length := by omega
  rw [basic?, Nat.ppred_eq_pred hpos]
  simp [hlt]

variable {α : Type} [Scalar α]

namespace Tableau

section Entries

variable (t : Tableau α) {i j : Nat}

theorem entry?_eq (hi : i < t.numRows) (hj : j < t.numColumns) :
    t.entry? i j = some (t.entry i j) := by
  unfold Buffer.entry?
  rw [← Array.getElem?_toList, getElem?_toList t hi hj]

theorem rhs?_eq (hi : i < t.numRows) (hcolumns : 0 < t.numColumns) :
    t.rhs? i = some (t.rhs i) := by
  have hj : t.numColumns - 1 < t.numColumns := Nat.sub_lt hcolumns Nat.one_pos
  rw [Buffer.rhs?, if_neg (Nat.ne_of_gt hcolumns), t.entry?_eq hi hj, rhs, rhsColumn]

theorem row?_zero (hrows : 0 < t.numRows) : t.row? 0 = some (t.row 0) := by
  have hsize : t.numColumns ≤ t.data.size := by
    rw [t.size_data]
    exact Nat.le_mul_of_pos_left _ hrows
  have hreaches : t.reachesRow 0 = true := by simp [Buffer.reachesRow, Buffer.maxRow, hsize]
  rw [Buffer.row?, if_pos hreaches, t.row_eq_take_drop hrows]
  simp

theorem reducedCosts?_eq (hrows : 0 < t.numRows) (hcolumns : 0 < t.numColumns) :
    t.reducedCosts? = some ((List.range t.numVariables).map (t.entry 0)) := by
  have hdrop : (t.row 0).dropLast = (List.range t.numVariables).map (t.entry 0) := by
    rw [List.dropLast_eq_take, length_row, row, ← List.map_take, List.take_range, numVariables,
      Nat.min_eq_left (Nat.sub_le _ _)]
  rw [Buffer.reducedCosts?, if_neg (Nat.ne_of_gt hcolumns), t.row?_zero hrows, Option.map_some,
    hdrop]

end Entries

section Rule

variable {eps : α} {t : Tableau α} {basis : List Nat} {c : Nat}

variable (eps) in
theorem enteringChecked?_eq (hrows : 0 < t.numRows) (hcolumns : 0 < t.numColumns) :
    t.enteringChecked? eps = some (t.entering? eps) := by
  rw [Buffer.enteringChecked?, t.reducedCosts?_eq hrows hcolumns]
  exact congrArg some (findIdx?_map_range (fun x => decide (x < -eps)) (t.entry 0) _)

theorem lt_of_entering? (h : t.entering? eps = some c) : c < t.numVariables :=
  List.mem_range.1 (List.mem_of_find?_eq_some h)

/-- The best row so far after one more row, without the checks. -/
def weighRow (eps : α) (t : Tableau α) (basis : List Nat) (column : Nat)
    (best : Option (Nat × α)) (i : Nat) : Option (Nat × α) :=
  if t.entry i column ≤ eps then best
  else
    let next := (i, t.rhs i / t.entry i column)
    some (best.elim next fun best => betterRow eps basis best next)

theorem weighRow_eq_or (eps : α) (t : Tableau α) (basis : List Nat) (c : Nat)
    (best : Option (Nat × α)) (i : Nat) :
    weighRow eps t basis c best i = best ∨
      weighRow eps t basis c best i = some (i, t.rhs i / t.entry i c) := by
  unfold weighRow
  split
  · exact Or.inl rfl
  · cases best with
    | none => exact Or.inr rfl
    | some best =>
      cases betterRow_eq_or eps basis best (i, t.rhs i / t.entry i c) with
      | inl h => exact Or.inl (congrArg some h)
      | inr h => exact Or.inr (congrArg some h)

theorem leaving?_eq_foldl (eps : α) (t : Tableau α) (basis : List Nat) (c : Nat) :
    t.leaving? eps basis c =
      ((List.range' 1 t.numConstraints).foldl (weighRow eps t basis c) none).map (·.1) := by
  have hweigh (best : Option (Nat × α)) :
      (List.range' 1 t.numConstraints).foldl (weighRow eps t basis c) best =
        (t.ratios eps c).foldl
          (fun best next => some (best.elim next fun best => betterRow eps basis best next))
          best := by
    rw [ratios, List.foldl_filterMap]
    congr 1
    funext best i
    by_cases hle : t.entry i c ≤ eps <;> simp [weighRow, hle]
  have hsome (rest : List (Nat × α)) (first : Nat × α) :
      rest.foldl (fun best next => some (best.elim next fun best => betterRow eps basis best next))
        (some first) = some (rest.foldl (betterRow eps basis) first) := by
    induction rest generalizing first with
    | nil => rfl
    | cons next rest ih => exact ih _
  rw [hweigh, leaving?]
  cases t.ratios eps c with
  | nil => rfl
  | cons first rest => rw [List.foldl_cons, Option.elim_none, hsome, Option.map_some]

/-- The best row so far is a constraint row. -/
def IsRowOf (t : Tableau α) (best : Option (Nat × α)) : Prop :=
  ∀ x ∈ best, 0 < x.1 ∧ x.1 ≤ t.numConstraints

variable (eps) in
theorem winsTie?_eq (hbasis : basis.length = t.numConstraints) (best next : Nat × α)
    (hbest : 0 < best.1 ∧ best.1 ≤ t.numConstraints)
    (hnext : 0 < next.1 ∧ next.1 ≤ t.numConstraints) :
    winsTie? eps basis best next = some (decide (Scalar.abs (next.2 - best.2) < eps ∧
      basis.getD (next.1 - 1) 0 < basis.getD (best.1 - 1) 0)) := by
  unfold winsTie?
  split
  · rename_i hnear
    rw [basic?_eq hbest.1 (hbasis ▸ hbest.2), basic?_eq hnext.1 (hbasis ▸ hnext.2)]
    simp [hnear]
  · rename_i hfar
    simp [hfar]

theorem IsRowOf.weighRow {best : Option (Nat × α)} (hbest : t.IsRowOf best) {i : Nat}
    (hpos : 0 < i) (hle : i ≤ t.numConstraints) : t.IsRowOf (weighRow eps t basis c best i) := by
  cases weighRow_eq_or eps t basis c best i with
  | inl h => rwa [h]
  | inr h =>
    rw [h]
    intro x hx
    cases hx
    exact ⟨hpos, hle⟩

theorem weighRow?_eq (hbasis : basis.length = t.numConstraints) (hc : c < t.numColumns)
    {best : Option (Nat × α)} (hbest : t.IsRowOf best) {i : Nat} (hpos : 0 < i)
    (hle : i ≤ t.numConstraints) :
    t.toBuffer.weighRow? eps basis c best i = some (weighRow eps t basis c best i) := by
  have hi : i < t.numRows := by
    unfold numConstraints at hle
    omega
  have hrhs := t.rhs?_eq hi (Nat.zero_lt_of_lt hc)
  unfold Buffer.weighRow? weighRow
  rw [t.entry?_eq hi hc]
  by_cases hentry : t.entry i c ≤ eps
  · simp [hentry]
  · cases best with
    | none => simp [hentry, hrhs]
    | some best =>
      have htie := winsTie?_eq eps hbasis best (i, t.rhs i / t.entry i c) (hbest best rfl)
        ⟨hpos, hle⟩
      simp [hentry, hrhs, htie, betterRow]

variable (eps) in
/-- The scan of the checked ratio test, which ends on a constraint row if on any. -/
theorem foldlM_weighRow? (hbasis : basis.length = t.numConstraints) (hc : c < t.numColumns) :
    (List.range' 1 t.numConstraints).foldlM (t.toBuffer.weighRow? eps basis c) none =
        some ((List.range' 1 t.numConstraints).foldl (weighRow eps t basis c) none) ∧
      t.IsRowOf ((List.range' 1 t.numConstraints).foldl (weighRow eps t basis c) none) := by
  refine foldlM_eq_some (fun x hx => nomatch hx) ?_
  intro best i hbest hi
  obtain ⟨hpos, hlt⟩ := List.mem_range'_1.1 hi
  have hle : i ≤ t.numConstraints := by omega
  exact ⟨weighRow?_eq hbasis hc hbest hpos hle, hbest.weighRow hpos hle⟩

variable (eps) in
theorem leavingChecked?_eq (hbasis : basis.length = t.numConstraints) (hrows : 0 < t.numRows)
    (hc : c < t.numColumns) :
    t.toBuffer.leavingChecked? eps basis c = some (t.leaving? eps basis c) := by
  have hscan := (foldlM_weighRow? eps hbasis hc).1
  unfold numConstraints at hscan
  rw [Buffer.leavingChecked?, Nat.ppred_eq_pred hrows, leaving?_eq_foldl]
  simp [hscan, numConstraints]

theorem le_of_leaving? (hbasis : basis.length = t.numConstraints) (hc : c < t.numColumns)
    {row : Nat} (h : t.leaving? eps basis c = some row) : 0 < row ∧ row ≤ t.numConstraints := by
  rw [leaving?_eq_foldl] at h
  obtain ⟨x, hx, rfl⟩ := Option.map_eq_some_iff.1 h
  exact (foldlM_weighRow? eps hbasis hc).2 x hx

end Rule

end Tableau

def Dictionary.work {α : Type} (d : Dictionary α) : Work α :=
  ⟨d.tableau.toBuffer, d.basis⟩

def Outcome.ending (o : Outcome α) : Ending α :=
  ⟨o.stop, o.tableau.toBuffer, o.basis, o.values, o.history⟩

/-- The shape of the tableau at the start, and a variable column for each constraint row. -/
structure Dictionary.HasShapeOf {α : Type} (t : Tableau α) (d : Dictionary α) : Prop where
  numRows : d.tableau.numRows = t.numRows
  numColumns : d.tableau.numColumns = t.numColumns
  length_basis : d.basis.length = t.numConstraints
  basis_lt : ∀ j ∈ d.basis, j < t.numVariables

namespace Dictionary

namespace HasShapeOf

variable {α : Type} {t : Tableau α} {d : Dictionary α}

theorem numConstraints (h : d.HasShapeOf t) : d.tableau.numConstraints = t.numConstraints := by
  rw [Tableau.numConstraints, h.numRows, Tableau.numConstraints]

theorem numVariables (h : d.HasShapeOf t) : d.tableau.numVariables = t.numVariables := by
  rw [Tableau.numVariables, h.numColumns, Tableau.numVariables]

theorem numStructural (h : d.HasShapeOf t) : d.tableau.numStructural = t.numStructural := by
  rw [Tableau.numStructural, h.numVariables, h.numConstraints, Tableau.numStructural]

theorem start [Scalar α] (h : t.numConstraints ≤ t.numVariables) :
    (Dictionary.start t).HasShapeOf t where
  numRows := rfl
  numColumns := rfl
  length_basis := by simp [Dictionary.start]
  basis_lt := by
    intro j hj
    have hplace := List.mem_range'_1.1 hj
    unfold Tableau.numStructural at hplace
    omega

theorem exchange [Scalar α] (h : d.HasShapeOf t) {c : Nat} (hc : c < t.numVariables) (row : Nat) :
    (d.exchange row c).HasShapeOf t where
  numRows := h.numRows
  numColumns := h.numColumns
  length_basis := by rw [Dictionary.exchange, List.length_set, h.length_basis]
  basis_lt := by
    intro j hj
    rcases List.mem_or_eq_of_mem_set hj with hmem | rfl
    · exact h.basis_lt j hmem
    · exact hc

end HasShapeOf

/-- Writes the value of a basic variable to its place, without the checks. -/
def writeValue (t : Tableau α) (structural : Nat) (values : List α) (place : Nat × Nat) :
    List α :=
  if place.1 < structural then values.set place.1 (t.rhs (place.2 + 1)) else values

theorem writeValue_map_range (t : Tableau α) (structural : Nat) (f : Nat → α)
    (place : Nat × Nat) :
    writeValue t structural ((List.range structural).map f) place =
      (List.range structural).map fun j => if place.1 = j then t.rhs (place.2 + 1) else f j := by
  unfold writeValue
  split
  · apply List.ext_getElem
    · simp
    · intro j _ _
      simp [List.getElem_set]
  · apply List.map_congr_left
    intro j hj
    have hlt := List.mem_range.1 hj
    rw [if_neg (by omega)]

/-- A place ends with the last value written to it. -/
theorem foldl_writeValue (t : Tableau α) (structural : Nat) (places : List (Nat × Nat))
    (f : Nat → α) :
    places.foldl (writeValue t structural) ((List.range structural).map f) =
      (List.range structural).map fun j =>
        places.foldl (fun x (k, i) => if k = j then t.rhs (i + 1) else x) (f j) := by
  induction places generalizing f with
  | nil => rfl
  | cons place places ih =>
    rw [List.foldl_cons, writeValue_map_range, ih]
    rfl

section Shape

variable {eps : α} {t : Tableau α} {d : Dictionary α} {row c : Nat}

theorem writeValue?_eq (h : d.HasShapeOf t) (hcolumns : 0 < t.numColumns) {values : List α}
    {structural : Nat} (hlength : values.length = structural) {place : Nat × Nat}
    (hplace : place ∈ d.basis.zipIdx) :
    d.tableau.toBuffer.writeValue? structural values place =
      some (writeValue d.tableau structural values place) := by
  have hi : place.2 + 1 < d.tableau.numRows := by
    have hlt := (List.mem_zipIdx' hplace).1
    rw [h.length_basis] at hlt
    unfold Tableau.numConstraints at hlt
    have hrows := h.numRows
    omega
  have hrhs := d.tableau.rhs?_eq hi (h.numColumns ▸ hcolumns)
  unfold Buffer.writeValue? writeValue
  by_cases hlt : place.1 < structural
  · simp [hlt, hrhs, setAt?, hlength]
  · simp [hlt]

theorem valuesChecked?_eq (h : d.HasShapeOf t) (hcolumns : 0 < t.numColumns) :
    d.work.valuesChecked? t.numStructural = some d.values := by
  have hzeros : List.replicate t.numStructural (0 : α) =
      (List.range t.numStructural).map fun _ => 0 := by
    rw [List.map_const', List.length_range]
  have hfold := foldlM_eq_some (P := fun values => values.length = t.numStructural)
    (f := d.tableau.toBuffer.writeValue? t.numStructural) (g := writeValue d.tableau t.numStructural)
    (l := d.basis.zipIdx) (List.length_replicate (a := (0 : α))) (by
      intro values place hlength hplace
      refine ⟨writeValue?_eq h hcolumns hlength hplace, ?_⟩
      unfold writeValue
      split <;> simp [hlength])
  rw [Work.valuesChecked?, work, hfold.1, hzeros, foldl_writeValue, values, h.numStructural]
  rfl

theorem chooseChecked?_eq (h : d.HasShapeOf t) (hrows : 0 < t.numRows)
    (hcolumns : 0 < t.numColumns) : d.work.chooseChecked? eps = some (d.choose eps) := by
  have hentering := Tableau.enteringChecked?_eq eps (h.numRows ▸ hrows) (h.numColumns ▸ hcolumns)
  rw [Work.chooseChecked?, work, hentering, choose]
  cases hc : d.tableau.entering? eps with
  | none => rfl
  | some c =>
    have hlt : c < d.tableau.numColumns :=
      Nat.lt_of_lt_of_le (Tableau.lt_of_entering? hc) (Nat.sub_le _ _)
    have hleaving := Tableau.leavingChecked?_eq eps
      (h.length_basis.trans h.numConstraints.symm) (h.numRows ▸ hrows) hlt
    simp only [Option.bind_eq_bind, Option.bind_some, hleaving]
    cases d.tableau.leaving? eps d.basis c <;> rfl

/-- The place of a chosen exchange is in a constraint row and a variable column. -/
theorem HasShapeOf.bounds_of_choose (h : d.HasShapeOf t) (hchoose : d.choose eps = .exchange row c) :
    (0 < row ∧ row ≤ t.numConstraints) ∧ c < t.numVariables := by
  unfold choose at hchoose
  split at hchoose
  · cases hchoose
  · rename_i hc
    split at hchoose
    · cases hchoose
    · rename_i hrow
      cases hchoose
      have hlt := Tableau.lt_of_entering? hc
      have hplace := Tableau.le_of_leaving? (h.length_basis.trans h.numConstraints.symm)
        (Nat.lt_of_lt_of_le hlt (Nat.sub_le _ _)) hrow
      rw [h.numConstraints] at hplace
      rw [h.numVariables] at hlt
      exact ⟨hplace, hlt⟩

theorem exchangeChecked?_eq (h : d.HasShapeOf t) (hpos : 0 < row) (hle : row ≤ t.numConstraints)
    (hc : c < t.numVariables) : d.work.exchangeChecked? row c = some (d.exchange row c).work := by
  have hplace : row - 1 < d.basis.length := by
    rw [h.length_basis]
    omega
  have hrow : row < d.tableau.numRows := by
    rw [← h.numConstraints] at hle
    unfold Tableau.numConstraints at hle
    omega
  have hcolumn : c < d.tableau.numColumns := by
    rw [← h.numVariables] at hc
    unfold Tableau.numVariables at hc
    omega
  rw [Work.exchangeChecked?, work, Nat.ppred_eq_pred hpos,
    Tableau.pivotInPlace?_toBuffer hrow hcolumn]
  simp [setAt?, hplace]
  rfl

variable (eps) in
/-- No check of the loop fails, by induction on the exchanges left. -/
theorem runChecked?_eq (hrows : 0 < t.numRows) (hcolumns : 0 < t.numColumns) (cap : Nat)
    (h : d.HasShapeOf t) (history : List Exchange) :
    d.work.runChecked? eps t.numStructural cap history =
      some (d.run eps cap history).ending := by
  induction cap generalizing d history with
  | zero =>
    rw [Work.runChecked?, chooseChecked?_eq h hrows hcolumns]
    cases hchoose : d.choose eps with
    | optimal =>
      simp [run_optimal hchoose, valuesChecked?_eq h hcolumns]
      rfl
    | unbounded c =>
      simp [run_unbounded hchoose]
      rfl
    | exchange row c =>
      simp [run_zero hchoose]
      rfl
  | succ cap ih =>
    rw [Work.runChecked?, chooseChecked?_eq h hrows hcolumns]
    cases hchoose : d.choose eps with
    | optimal =>
      simp [run_optimal hchoose, valuesChecked?_eq h hcolumns]
      rfl
    | unbounded c =>
      simp [run_unbounded hchoose]
      rfl
    | exchange row c =>
      obtain ⟨⟨hpos, hle⟩, hc⟩ := h.bounds_of_choose hchoose
      have hbasic : basic? d.work.basis row = some (d.basis.getD (row - 1) 0) :=
        basic?_eq hpos (h.length_basis ▸ hle)
      rw [run_succ hchoose, next_of_choose hchoose, ← ih (h.exchange hc row)]
      simp [hbasic, exchangeChecked?_eq h hpos hle hc]

end Shape

end Dictionary

/-- On a full buffer no index is out of range and no count below zero. -/
theorem Tableau.solveChecked?_eq (eps : α) (cap : Nat) (t : Tableau α) :
    t.toBuffer.solveChecked? eps cap = some ((t.solve eps cap).map Outcome.ending) := by
  unfold Buffer.solveChecked? solve
  split
  · rfl
  · rename_i hshape
    have hrows : 0 < t.numRows := by omega
    have hcolumns : 0 < t.numColumns := by omega
    have hm : t.numRows.ppred = some t.numConstraints := Nat.ppred_eq_pred hrows
    have hvars : t.numColumns.ppred = some t.numVariables := Nat.ppred_eq_pred hcolumns
    by_cases hfew : t.numVariables < t.numConstraints
    · simp [hm, hvars, hfew]
      rfl
    · have hpsub : t.numVariables.psub t.numConstraints = some t.numStructural :=
        Nat.psub_eq_sub (Nat.not_lt.1 hfew)
      have hrun := Dictionary.runChecked?_eq eps hrows hcolumns cap
        (.start (Nat.not_lt.1 hfew)) []
      unfold Dictionary.work Dictionary.start at hrun
      simp [hm, hvars, hfew, hpsub, hrun]
      rfl

/-- The ending for a buffer: within the cap, the same shape with a full buffer, a variable column
for each constraint row, and a value for each structural column if the status is optimal. -/
structure Ending.IsWhole (cap : Nat) (b : Buffer α) (e : Ending α) : Prop where
  length_history_le : e.history.length ≤ cap
  numRows : e.buffer.numRows = b.numRows
  numColumns : e.buffer.numColumns = b.numColumns
  size_data : e.buffer.data.size = b.numRows * b.numColumns
  length_basis : e.basis.length = b.numRows - 1
  basis_lt : ∀ j ∈ e.basis, j < b.numColumns - 1
  isSome_values : e.values.isSome ↔ e.stop.status = .optimal
  length_values : ∀ values ∈ e.values, values.length = b.numColumns - 1 - (b.numRows - 1)

theorem Outcome.isSome_values_iff (o : Outcome α) : o.values.isSome ↔ o.status = .optimal := by
  unfold values status
  cases o.stop with
  | optimal => simp [Stop.status]
  | unbounded column => simp [Stop.status]
  | iterationLimit => simp [Stop.status]

theorem Outcome.eq_values_of_mem {o : Outcome α} {values : List α} (h : values ∈ o.values) :
    values = o.final.values := by
  unfold Outcome.values at h
  split at h
  · exact (Option.some.inj h).symm
  · cases h

theorem Tableau.isWhole_solveFrom (eps : α) (cap : Nat) {t : Tableau α}
    (h : t.numConstraints ≤ t.numVariables) :
    (t.solveFrom eps cap).ending.IsWhole cap t.toBuffer := by
  have hshape : (t.solveFrom eps cap).final.HasShapeOf t :=
    final_induction (P := fun d => d.HasShapeOf t) (.start h) fun d row c hd hchoose =>
      hd.exchange (hd.bounds_of_choose hchoose).2 row
  exact {
    length_history_le := (endsAfter_solveFrom eps cap t).le_cap
    numRows := hshape.numRows
    numColumns := hshape.numColumns
    size_data := by
      rw [Outcome.ending, Outcome.tableau, Tableau.size_data, hshape.numRows, hshape.numColumns]
    length_basis := hshape.length_basis
    basis_lt := hshape.basis_lt
    isSome_values := (t.solveFrom eps cap).isSome_values_iff
    length_values := by
      intro values hvalues
      rw [Outcome.eq_values_of_mem hvalues, Dictionary.values, List.length_map, List.length_range,
        hshape.numStructural]
      rfl }

/-- The buffers of rows and of zeros are full. -/
theorem Buffer.IsMade.exists_tableau {o : Overflow} {b : Buffer α} (hb : b.IsMade o) :
    ∃ t : Tableau α, t.toBuffer = b := by
  cases hb with
  | ofRows h => exact ⟨_, rfl⟩
  | @zeros m n _ h hfits =>
    have hmap : Buffer.zeros? o m n =
        (Tableau.zeros? m n : Option (Tableau α)).map Tableau.toBuffer := by
      cases o with
      | refuses => exact Tableau.zeros?_refuses m n
      | wraps => exact Tableau.zeros?_of_lt .wraps (hfits rfl)
    rw [hmap, Option.map_eq_some_iff] at h
    obtain ⟨t, _, rfl⟩ := h
    exact ⟨t, rfl⟩

/-- Whatever the tolerance, the cap and the entries, no index of a run is out of range. A buffer is
refused for its shape only, and the ending for any other is whole and that of the tableau. -/
theorem Buffer.solve_inBounds {o : Overflow} {b : Buffer α} (hb : b.IsMade o) (eps : α)
    (cap : Nat) :
    ∃ result, b.solveChecked? eps cap = some result ∧
      ((∃ e, result = .error e) ↔
        b.numRows = 0 ∨ b.numColumns = 0 ∨ b.numColumns - 1 < b.numRows - 1) ∧
      (∀ e, result = .ok e → e.IsWhole cap b) ∧
      ∃ t : Tableau α, t.toBuffer = b ∧ result = (t.solve eps cap).map Outcome.ending := by
  obtain ⟨t, rfl⟩ := hb.exists_tableau
  refine ⟨_, t.solveChecked?_eq eps cap, ?_, ?_, t, rfl, rfl⟩
  · unfold Tableau.solve
    split
    · exact iff_of_true ⟨_, rfl⟩ (by omega)
    · split
      · rename_i hfew
        exact iff_of_true ⟨_, rfl⟩ (.inr (.inr hfew))
      · rename_i hshape henough
        refine iff_of_false (fun ⟨e, he⟩ => nomatch he) ?_
        unfold Tableau.numVariables Tableau.numConstraints at henough
        omega
  · intro e he
    cases hsolve : t.solve eps cap with
    | error e => rw [hsolve] at he; cases he
    | ok outcome =>
      rw [hsolve] at he
      cases he
      obtain ⟨⟨_, _, henough⟩, rfl⟩ := Tableau.solve_eq_ok_iff.1 hsolve
      exact t.isWhole_solveFrom eps cap henough

/-- With a tolerance below zero a column may be basic in two rows, and a pivot may be zero. -/
theorem Buffer.solve_inBounds_repeatedColumn :
    ∃ t : Tableau Float, Tableau.ofRows [[0, 0, 0], [1, 1, 1], [1, 2, 1]] = .ok t ∧
      t.toBuffer.IsMade .wraps ∧
      ∃ e, t.toBuffer.solveChecked? (-1) 2 = some (.ok e) ∧ e.stop = .iterationLimit ∧
        e.basis = [0, 0] ∧ e.history = [⟨0, 0, 1⟩, ⟨0, 1, 2⟩] ∧
        (t.solveFrom (-1) 1).tableau.entry 1 0 = 0 ∧ e.IsWhole 2 t.toBuffer := by
  let t : Tableau Float :=
    .ofFn 3 3 fun i j => ([[0, 0, 0], [1, 1, 1], [1, 2, 1]].getD i []).getD j 0
  have hfinite : [[0, 0, 0], [1, 1, 1], [1, 2, 1]].all (·.all (Scalar.isFinite : Float → Bool)) := by
    decide +kernel
  have hrows : Tableau.ofRows [[0, 0, 0], [1, 1, 1], [1, 2, 1]] = .ok t :=
    if_pos (e := .error (.nonFinite .tableau)) hfinite
  have hmade : t.toBuffer.IsMade .wraps := .ofRows hrows
  have hok : t.solve (-1) 2 = .ok (t.solveFrom (-1) 2) :=
    Tableau.solve_eq_ok_iff.2 ⟨by decide, rfl⟩
  have hchecked := t.solveChecked?_eq (-1) 2
  rw [hok] at hchecked
  obtain ⟨result, hresult, _, hwhole, _⟩ := solve_inBounds hmade (-1) 2
  obtain rfl := Option.some.inj (hresult.symm.trans hchecked)
  exact ⟨t, hrows, hmade, _, hchecked, by decide +kernel, by decide +kernel, by decide +kernel,
    by decide +kernel, hwhole _ rfl⟩

theorem Work.runChecked?_eq_none {eps : α} {structural cap : Nat} {w : Work α}
    {history : List Exchange} (h : w.chooseChecked? eps = none) :
    w.runChecked? eps structural cap history = none := by
  cases cap <;> (rw [runChecked?, h]; rfl)

/-- A buffer without room for its first row is left by the loop, unless its shape is refused. -/
theorem Buffer.solveChecked?_eq_none {b : Buffer α} (eps : α) (cap : Nat) (hrows : 0 < b.numRows)
    (henough : b.numRows - 1 ≤ b.numColumns - 1) (hshort : b.data.size < b.numColumns) :
    b.solveChecked? eps cap = none := by
  have hcolumns : 0 < b.numColumns := Nat.zero_lt_of_lt hshort
  have hrow : b.row? 0 = none := by simp [row?, reachesRow, hshort]
  have hchoose (basis : List Nat) : (Work.mk b basis).chooseChecked? eps = none := by
    simp [Work.chooseChecked?, enteringChecked?, reducedCosts?, hrow, Nat.ne_of_gt hcolumns]
  rw [solveChecked?, if_neg (by omega), Nat.ppred_eq_pred hrows, Nat.ppred_eq_pred hcolumns]
  simp [Nat.not_lt.2 henough, Work.runChecked?_eq_none (hchoose _)]

/-- Zeros whose number is refused or wraps around to none: the shape is accepted, and the first row
is not there. -/
theorem Buffer.zeros_outOfBounds :
    (Buffer.zeros? .refuses 2 (2 ^ 63) : Option (Buffer Float)) = none ∧
    ∃ b : Buffer Float, Buffer.zeros? .wraps 2 (2 ^ 63) = some b ∧
      ¬(b.numRows = 0 ∨ b.numColumns = 0 ∨ b.numColumns - 1 < b.numRows - 1) ∧
      b.data = #[] ∧ b.solveChecked? 1e-10 10000 = none :=
  ⟨rfl, ⟨2, 2 ^ 63, #[]⟩, rfl, by decide, rfl,
    solveChecked?_eq_none _ _ (by decide) (by decide) (by decide)⟩

end PenaltySimplex
