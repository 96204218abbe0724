import Mathlib.LinearAlgebra.Matrix.Defs
import Mathlib.Logic.Relation
import PenaltySimplex.Linear.RowSelection
import PenaltySimplex.Proofs.OrderedField

/-!
# PenaltySimplex.Proofs.Pruning

What the cheap pass over the rows of a matrix leaves out (`prune_keeps_directions`): a row with an
entry that reaches the tolerance goes only if a chain of near multiples leads to it from a row that
stays, and no row that stays is a near multiple of a row before it that exceeds the tolerance.

A row that goes still takes later rows with it, so the row that a duplicate is compared with need
not stay itself. The chain is found by strong induction on the number of the row.

The first lemmas are about any arithmetic; a row list then becomes a matrix over an ordered field.
-/

namespace PenaltySimplex
namespace Linear

/-! ## Membership -/

section Membership

variable {α : Type} [Scalar α] {tolerance : α} {rows : List (List α × Nat)}

theorem mem_prune {q : List α × Nat} :
    q ∈ prune tolerance rows ↔ q ∈ rows ∧ isSubstantial tolerance q.1 = true ∧
      ∀ r ∈ rows, isSubstantial tolerance r.1 = true → r.2 < q.2 →
        isNearMultiple tolerance r.1 q.1 = false := by
  simp only [prune, List.mem_filter, Bool.not_eq_true', List.any_eq_false, Bool.and_eq_true,
    decide_eq_true_eq, not_and, Bool.not_eq_true, and_assoc, and_imp]

theorem prune_sublist (tolerance : α) (rows : List (List α × Nat)) :
    (prune tolerance rows).Sublist rows :=
  List.filter_sublist.trans List.filter_sublist

theorem pairwise_snd_zipIdx {β : Type} (l : List β) :
    l.zipIdx.Pairwise fun p q => p.2 < q.2 := by
  rw [← List.pairwise_map (f := Prod.snd) (R := (· < ·)), List.zipIdx_map_snd]
  exact List.pairwise_lt_range'

end Membership

/-! ## Rows of a matrix -/

section Rows

variable {β : Type} {m n : Nat}

def rowsOf (A : Matrix (Fin m) (Fin n) β) : List (List β) :=
  List.ofFn fun i => List.ofFn (A i)

theorem mem_zipIdx_rowsOf {A : Matrix (Fin m) (Fin n) β} {q : List β × Nat} :
    q ∈ (rowsOf A).zipIdx ↔ ∃ i : Fin m, q = (List.ofFn (A i), i.val) := by
  obtain ⟨row, i⟩ := q
  rw [List.mk_mem_zipIdx_iff_getElem?, rowsOf, List.getElem?_ofFn]
  constructor
  · intro h
    split at h
    · rename_i hi
      exact ⟨⟨i, hi⟩, by simpa using h.symm⟩
    · cases h
  · rintro ⟨j, h⟩
    obtain ⟨rfl, rfl⟩ := Prod.mk.inj h
    simp

theorem forall_mem_zip_ofFn {u v : Fin n → β} {p : β × β → Prop} :
    (∀ q ∈ (List.ofFn v).zip (List.ofFn u), p q) ↔ ∀ c, p (v c, u c) := by
  rw [List.forall_mem_iff_forall_getElem]
  constructor
  · intro h c
    simpa using h c (by simp)
  · intro h i hi
    have hin : i < n := by simpa using hi
    simpa using h ⟨i, hin⟩

end Rows

/-! ## Near multiples over an ordered field -/

variable {K : Type} [Field K] [LinearOrder K] {m n : Nat}

/-- Up to the tolerance `later` is the multiple of `earlier` that agrees with it in the first column
where `earlier` exceeds the tolerance. -/
def NearMultiple (tolerance : K) (earlier later : Fin n → K) : Prop :=
  ∃ k, tolerance < |earlier k| ∧ (∀ c < k, |earlier c| ≤ tolerance) ∧
    ∀ c, |later c - later k / earlier k * earlier c| < tolerance

/-- A row and a later near multiple of it, both with an entry that reaches the tolerance. -/
structure Duplicates (tolerance : K) (A : Matrix (Fin m) (Fin n) K) (i j : Fin m) : Prop where
  lt : i < j
  earlier : ∃ c, tolerance ≤ |A i c|
  later : ∃ c, tolerance ≤ |A j c|
  near : NearMultiple tolerance (A i) (A j)

/-- The numbers of the rows that pruning keeps. -/
def prunedRows (tolerance : K) (A : Matrix (Fin m) (Fin n) K) : List Nat :=
  (prune tolerance (rowsOf A).zipIdx).map Prod.snd

theorem isSubstantial_ofFn {tolerance : K} {u : Fin n → K} :
    isSubstantial tolerance (List.ofFn u) = true ↔ ∃ c, tolerance ≤ |u c| := by
  simp [isSubstantial, List.any_eq_true, List.mem_ofFn]

theorem anchor?_ofFn {tolerance : K} {u : Fin n → K} {k : Nat} :
    anchor? tolerance (List.ofFn u) = some k ↔
      ∃ h : k < n, tolerance < |u ⟨k, h⟩| ∧ ∀ c : Fin n, c.val < k → |u c| ≤ tolerance := by
  rw [anchor?, List.findIdx?_eq_some_iff_getElem]
  constructor
  · rintro ⟨hk, habove, hbelow⟩
    refine ⟨by simpa using hk, by simpa using habove, ?_⟩
    intro c hc
    simpa using hbelow c hc
  · rintro ⟨hk, habove, hbelow⟩
    refine ⟨by simpa using hk, by simpa using habove, ?_⟩
    intro c hc
    simpa using hbelow ⟨c, Nat.lt_trans hc hk⟩ hc

theorem isNearMultiple_ofFn {tolerance : K} {u v : Fin n → K} :
    isNearMultiple tolerance (List.ofFn u) (List.ofFn v) = true ↔ NearMultiple tolerance u v := by
  have hnear {k : Nat} (hk : k < n) (h : anchor? tolerance (List.ofFn u) = some k) :
      isNearMultiple tolerance (List.ofFn u) (List.ofFn v) = true ↔
        ∀ c, |v c - v ⟨k, hk⟩ / u ⟨k, hk⟩ * u c| < tolerance := by
    rw [isNearMultiple, h, ← forall_mem_zip_ofFn (p := fun q =>
      |q.1 - v ⟨k, hk⟩ / u ⟨k, hk⟩ * q.2| < tolerance)]
    simp [hk, List.getD_eq_getElem?_getD]
  constructor
  · intro h
    cases hanchor : anchor? tolerance (List.ofFn u) with
    | none => simp [isNearMultiple, hanchor] at h
    | some k =>
      obtain ⟨hk, habove, hbelow⟩ := anchor?_ofFn.1 hanchor
      exact ⟨⟨k, hk⟩, habove, hbelow, (hnear hk hanchor).1 h⟩
  · rintro ⟨k, habove, hbelow, h⟩
    exact (hnear k.isLt (anchor?_ofFn.2 ⟨k.isLt, habove, hbelow⟩)).2 h

variable {tolerance : K} {A : Matrix (Fin m) (Fin n) K}

theorem mem_prunedRows {j : Nat} : j ∈ prunedRows tolerance A ↔
    ∃ i : Fin m, i.val = j ∧ (∃ c, tolerance ≤ |A i c|) ∧ ∀ k, ¬ Duplicates tolerance A k i := by
  simp only [prunedRows, List.mem_map, mem_prune, mem_zipIdx_rowsOf]
  constructor
  · rintro ⟨_, ⟨⟨i, rfl⟩, hsubstantial, hnone⟩, rfl⟩
    refine ⟨i, rfl, isSubstantial_ofFn.1 hsubstantial, ?_⟩
    intro k hk
    have hfalse := hnone _ ⟨k, rfl⟩ (isSubstantial_ofFn.2 hk.earlier) hk.lt
    rw [isNearMultiple_ofFn.2 hk.near] at hfalse
    cases hfalse
  · rintro ⟨i, rfl, hsubstantial, hnone⟩
    refine ⟨_, ⟨⟨i, rfl⟩, isSubstantial_ofFn.2 hsubstantial, ?_⟩, rfl⟩
    rintro _ ⟨k, rfl⟩ hk hlt
    cases hnear : isNearMultiple tolerance (List.ofFn (A k)) (List.ofFn (A i)) with
    | false => rfl
    | true =>
      exact absurd ⟨hlt, isSubstantial_ofFn.1 hk, hsubstantial, isNearMultiple_ofFn.1 hnear⟩
        (hnone k)

theorem pairwise_prunedRows (tolerance : K) (A : Matrix (Fin m) (Fin n) K) :
    (prunedRows tolerance A).Pairwise (· < ·) := by
  rw [prunedRows, List.pairwise_map]
  exact (pairwise_snd_zipIdx _).sublist (prune_sublist _ _)

/-- A row that goes is reached from one that stays: each step back leads to an earlier row. -/
theorem exists_transGen_duplicates {j : Fin m} (hj : ∃ c, tolerance ≤ |A j c|)
    (hout : j.val ∉ prunedRows tolerance A) :
    ∃ i < j, i.val ∈ prunedRows tolerance A ∧
      Relation.TransGen (Duplicates tolerance A) i j := by
  induction j using WellFoundedLT.induction with
  | ind j ih =>
    obtain ⟨k, hk⟩ : ∃ k, Duplicates tolerance A k j := by
      by_contra hnone
      exact hout (mem_prunedRows.2 ⟨j, rfl, hj, not_exists.1 hnone⟩)
    by_cases hkept : k.val ∈ prunedRows tolerance A
    · exact ⟨k, hk.lt, hkept, .single hk⟩
    · obtain ⟨i, hlt, hi, hchain⟩ := ih k hk.lt hk.earlier hkept
      exact ⟨i, hlt.trans hk.lt, hi, hchain.tail hk⟩

/-- Pruning returns numbers of rows in increasing order. A row that it leaves out although an entry
reaches the tolerance is at the end of a chain of near multiples, among rows of this kind, that
starts at an earlier row that it keeps. No row that it keeps is a near multiple of an earlier row
with an entry above the tolerance. -/
theorem prune_keeps_directions (tolerance : K) (A : Matrix (Fin m) (Fin n) K) :
    (prunedRows tolerance A).Pairwise (· < ·) ∧ (∀ i ∈ prunedRows tolerance A, i < m) ∧
    (∀ j : Fin m, (∃ c, tolerance ≤ |A j c|) → j.val ∉ prunedRows tolerance A →
      ∃ i < j, i.val ∈ prunedRows tolerance A ∧
        Relation.TransGen (Duplicates tolerance A) i j) ∧
    (∀ i j : Fin m, j.val ∈ prunedRows tolerance A → i < j → (∃ c, tolerance < |A i c|) →
      ¬ NearMultiple tolerance (A i) (A j)) := by
  refine ⟨pairwise_prunedRows tolerance A, ?_, ?_, ?_⟩
  · intro i hi
    obtain ⟨k, rfl, _⟩ := mem_prunedRows.1 hi
    exact k.isLt
  · intro j hj hout
    exact exists_transGen_duplicates hj hout
  · rintro i j hj hlt ⟨c, hc⟩ hnear
    obtain ⟨k, hk, hsubstantial, hnone⟩ := mem_prunedRows.1 hj
    obtain rfl := Fin.ext hk
    exact hnone i ⟨hlt, ⟨c, hc.le⟩, hsubstantial, hnear⟩

/-- The last row is no near multiple of the first, which is kept; it goes because of the second,
which goes itself. -/
example : (prune (1 / 2 : ℚ) [[1, 0], [1, 2 / 5], [1, 4 / 5]].zipIdx).map Prod.snd = [0] := by
  decide +kernel

end Linear
end PenaltySimplex
