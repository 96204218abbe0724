import PenaltySimplex.Consistency
import PenaltySimplex.Proofs.Analysis
import PenaltySimplex.Proofs.MatrixForm
import PenaltySimplex.Proofs.Pruning

/-!
# PenaltySimplex.Proofs.RepeatedAnalysis

The selection of rows is idempotent, whatever the arithmetic (`Analyzer.analyze_repeated`): of the
rows that an analysis keeps a second one leaves out none, unless it finds that they have no
solution.

* Pruning compares two rows at a time, so a row that passed among all rows passes among fewer
  (`prune_zipIdx_eq_self`).
* Orthogonalization builds its basis from the rows it keeps, so without the others it goes through
  the same steps (`independentFrom_idem`).
* The numbers that travel with the rows play no part in that (`map_fst_independentFrom`).
-/

namespace PenaltySimplex
namespace Linear

section Pruning

variable {α : Type} [Scalar α] {tolerance : α}

/-- No row is negligible, and none is a near multiple of a row before it. -/
structure Pruned (tolerance : α) (rows : List (List α)) : Prop where
  substantial : ∀ row ∈ rows, isSubstantial tolerance row = true
  distinct : rows.Pairwise fun earlier later => isNearMultiple tolerance earlier later = false

theorem Pruned.sublist {rows rows' : List (List α)} (h : Pruned tolerance rows')
    (hsub : rows.Sublist rows') : Pruned tolerance rows where
  substantial row hrow := h.substantial row (hsub.subset hrow)
  distinct := h.distinct.sublist hsub

variable (tolerance) in
theorem pruned_prune {rows : List (List α × Nat)} (hrows : rows.Pairwise fun p q => p.2 < q.2) :
    Pruned tolerance ((prune tolerance rows).map Prod.fst) where
  substantial row hrow := by
    obtain ⟨q, hq, rfl⟩ := List.mem_map.1 hrow
    exact (mem_prune.1 hq).2.1
  distinct := by
    rw [List.pairwise_map]
    refine (hrows.sublist (prune_sublist tolerance rows)).imp_of_mem ?_
    intro p q hp hq hlt
    obtain ⟨hp, hsubstantial, _⟩ := mem_prune.1 hp
    exact (mem_prune.1 hq).2.2 p hp hsubstantial hlt

theorem prune_zipIdx_eq_self {rows : List (List α)} (h : Pruned tolerance rows) :
    prune tolerance rows.zipIdx = rows.zipIdx := by
  have hsubstantial : rows.zipIdx.filter (fun q => isSubstantial tolerance q.1) = rows.zipIdx :=
    List.filter_eq_self.2 fun q hq => h.substantial _ (List.fst_mem_of_mem_zipIdx hq)
  show (rows.zipIdx.filter fun q => isSubstantial tolerance q.1).filter _ = rows.zipIdx
  rw [hsubstantial]
  refine List.filter_eq_self.2 ?_
  rintro ⟨later, i⟩ hlater
  simp only [Bool.not_eq_true', List.any_eq_false, Bool.and_eq_true, decide_eq_true_eq, not_and,
    Bool.not_eq_true]
  rintro ⟨earlier, k⟩ hearlier hlt
  obtain ⟨hk, rfl⟩ := List.getElem?_eq_some_iff.1 (List.mk_mem_zipIdx_iff_getElem?.1 hearlier)
  obtain ⟨hi, rfl⟩ := List.getElem?_eq_some_iff.1 (List.mk_mem_zipIdx_iff_getElem?.1 hlater)
  exact List.pairwise_iff_getElem.1 h.distinct k i hk hi hlt

end Pruning

section Independence

variable {α : Type} [RootScalar α] {tolerance : α}

theorem independentFrom_sublist (tolerance : α) (basis : List (List α))
    (rows : List (List α × Nat)) : (independentFrom tolerance basis rows).Sublist rows := by
  induction rows generalizing basis with
  | nil => exact .slnil
  | cons q rows ih =>
    obtain ⟨row, i⟩ := q
    simp only [independentFrom]
    split
    · exact (ih _).cons_cons _
    · exact (ih _).cons _

/-- The rows that are kept do not depend on the numbers that travel with them. -/
theorem map_fst_independentFrom (tolerance : α) (basis : List (List α))
    {rows rows' : List (List α × Nat)} (h : rows.map Prod.fst = rows'.map Prod.fst) :
    (independentFrom tolerance basis rows).map Prod.fst =
      (independentFrom tolerance basis rows').map Prod.fst := by
  induction rows generalizing basis rows' with
  | nil =>
    cases rows' with
    | nil => rfl
    | cons q' rows' => simp at h
  | cons q rows ih =>
    cases rows' with
    | nil => simp at h
    | cons q' rows' =>
      obtain ⟨row, i⟩ := q
      obtain ⟨row', i'⟩ := q'
      simp only [List.map_cons, List.cons.injEq] at h
      obtain ⟨rfl, hrest⟩ := h
      simp only [independentFrom]
      split
      · simp only [List.map_cons, ih _ hrest]
      · exact ih _ hrest

theorem independentFrom_idem (tolerance : α) (basis : List (List α)) (rows : List (List α × Nat)) :
    independentFrom tolerance basis (independentFrom tolerance basis rows) =
      independentFrom tolerance basis rows := by
  induction rows generalizing basis with
  | nil => rfl
  | cons q rows ih =>
    obtain ⟨row, i⟩ := q
    simp only [independentFrom]
    split
    · rename_i hfar
      simp only [independentFrom, if_pos hfar, ih]
    · exact ih basis

/-- Rows that are all kept are kept under every numbering. -/
theorem independentRows_zipIdx {rows : List (List α × Nat)}
    (h : independentRows tolerance rows = rows) :
    independentRows tolerance (rows.map Prod.fst).zipIdx = (rows.map Prod.fst).zipIdx := by
  refine (independentFrom_sublist tolerance [] _).eq_of_length ?_
  have hrows : (rows.map Prod.fst).zipIdx.map Prod.fst = rows.map Prod.fst := by simp
  have hkept := congrArg List.length (map_fst_independentFrom tolerance [] hrows)
  rw [independentRows] at h
  simpa [h] using hkept

end Independence

end Linear

open Linear

namespace StandardForm

variable {α : Type} {p : StandardForm α}

/-- Rows that travel with their numbers are the rows that the numbers select. -/
theorem rows_selectRows {kept : List (List α × Nat)} (h : ∀ q ∈ kept, q ∈ p.rows.zipIdx) :
    (p.selectRows (kept.map Prod.snd)).rows = kept.map Prod.fst := by
  induction kept with
  | nil => rfl
  | cons q kept ih =>
    obtain ⟨hq, hkept⟩ := List.forall_mem_cons.1 h
    have hrow := List.mk_mem_zipIdx_iff_getElem?.1 hq
    rw [rows, List.getElem?_map, Option.map_eq_some_iff] at hrow
    obtain ⟨e, he, hcoefficients⟩ := hrow
    have hrest := ih hkept
    simp only [rows, selectRows, List.map_cons, List.filterMap_cons, he, List.map_cons,
      hcoefficients] at hrest ⊢
    rw [hrest]

theorem selectRows_range (p : StandardForm α) : p.selectRows (List.range p.numRows) = p := by
  refine ext_of_eq rfl (List.map_injective_iff.2 (Option.some_injective _) ?_)
  rw [map_some_selectRows fun i hi => List.mem_range.1 hi]
  refine List.ext_getElem (by simp [numRows]) ?_
  intro i hi _
  have hlt : i < p.equations.length := by simpa [numRows] using hi
  simp [hlt]

end StandardForm

namespace Analyzer

variable {α : Type} [RootScalar α] {a : Analyzer α} {p q : StandardForm α} {kept : List Nat}

theorem candidates_sublist (a : Analyzer α) (rows : List (List α)) :
    (a.candidates rows).Sublist rows.zipIdx := by
  rw [candidates]
  split
  · exact prune_sublist _ _
  · exact List.Sublist.refl _

/-- Rows that are candidates among more rows are candidates among themselves. -/
theorem candidates_of_sublist {rows : List (List α × Nat)} {rows' : List (List α)}
    (h : rows.Sublist (a.candidates rows')) :
    a.candidates (rows.map Prod.fst) = (rows.map Prod.fst).zipIdx := by
  unfold candidates at h ⊢
  split at h
  · rename_i hprunes
    have hpruned := pruned_prune a.tolerance (pairwise_snd_zipIdx rows')
    rw [if_pos hprunes, prune_zipIdx_eq_self (hpruned.sublist (h.map Prod.fst))]
  · rename_i hprunes
    rw [if_neg hprunes]

/-- The rows that an analysis keeps are selected, all of them, by both passes of another one. It
returns the same problem, unless its residual rejects that. -/
theorem analyze_repeated (h : (a.analyze p).value = .feasible q kept) :
    kept.length = q.numRows ∧ a.candidates q.rows = q.rows.zipIdx ∧
    independentRows a.tolerance (a.candidates q.rows) = q.rows.zipIdx ∧
    a.keptRows q.rows = List.range q.numRows ∧
    (a.analyze q).value =
      if a.tolerance < (a.measure q.numColumns q.rows q.rhs).distance then
        .infeasible (a.measure q.numColumns q.rows q.rhs).distance
      else .feasible q (List.range q.numRows) := by
  rw [value_analyze] at h
  split at h
  · cases h
  · obtain ⟨rfl, rfl⟩ := Feasibility.feasible.inj h
    have hkept : a.keptRows p.rows =
        (independentRows a.tolerance (a.candidates p.rows)).map Prod.snd := rfl
    have hsub : (independentRows a.tolerance (a.candidates p.rows)).Sublist (a.candidates p.rows) :=
      independentFrom_sublist a.tolerance [] _
    have hidem : independentRows a.tolerance (independentRows a.tolerance (a.candidates p.rows)) =
        independentRows a.tolerance (a.candidates p.rows) :=
      independentFrom_idem a.tolerance [] _
    have hrows := StandardForm.rows_selectRows fun r hr =>
      (hsub.trans (a.candidates_sublist p.rows)).subset hr
    rw [← hkept] at hrows
    have hcandidates := candidates_of_sublist hsub
    have hindependent := independentRows_zipIdx hidem
    rw [← hrows] at hcandidates hindependent
    generalize p.selectRows (a.keptRows p.rows) = q at *
    have hrange : a.keptRows q.rows = List.range q.numRows := by
      rw [keptRows, hcandidates, hindependent, List.zipIdx_map_snd, q.length_rows,
        List.range_eq_range']
    refine ⟨?_, hcandidates, by rw [hcandidates, hindependent], hrange, ?_⟩
    · rw [hkept, List.length_map, ← q.length_rows, hrows, List.length_map]
    · rw [value_analyze, hrange, q.selectRows_range]

/-- Twice the first equation, and an equation that is independent of it. -/
def doubled : StandardForm Float where
  objective := [1, 0]
  equations := [⟨[1, 1], 1⟩, ⟨[2, 2], 2⟩, ⟨[1, -1], 0⟩]
  width := by simp

/-- The default settings on doubles. -/
theorem analyze_repeated_doubled :
    ((ofTolerance defaultRankTolerance true).analyze doubled).value =
      .feasible (doubled.selectRows [0, 2]) [0, 2] ∧
    (ofTolerance defaultRankTolerance true).keptRows (doubled.selectRows [0, 2]).rows = [0, 1] := by
  have hfeasible : ((ofTolerance defaultRankTolerance true).analyze doubled).value =
      .feasible (doubled.selectRows [0, 2]) [0, 2] := by
    have hnear : ¬ defaultRankTolerance <
        (Linear.residual defaultRankTolerance 2 doubled.rows doubled.rhs).distance := by
      decide +kernel
    have hkept : (ofTolerance defaultRankTolerance true).keptRows doubled.rows = [0, 2] := by
      decide +kernel
    rw [value_analyze, hkept]
    exact if_neg hnear
  exact ⟨hfeasible, (analyze_repeated hfeasible).2.2.2.1⟩

end Analyzer

end PenaltySimplex
