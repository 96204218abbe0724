import Mathlib.LinearAlgebra.LinearIndependent.Lemmas
import PenaltySimplex.Proofs.RowSpan

/-!
# PenaltySimplex.Proofs.Analysis

What an exact analysis of equations returns (`Analyzer.analyze_full_rank`): it rejects exactly the
equations without a solution, and otherwise keeps the rows that are no linear combination of the
rows before them. These are linearly independent and have the same solutions.

Pruning does not change which rows are kept (`independentRows_candidates`). With tolerance zero it
leaves out rows of width zero only, and these depend on no rows at all.
-/

namespace PenaltySimplex

open Linear

/-! ## Vectors outside the span of the vectors before them -/

theorem linearIndependent_of_notMem_span {V : Type} [AddCommGroup V] [Module ℝ V] {m : Nat}
    {v : Fin m → V} (h : ∀ k, v k ∉ Submodule.span ℝ (v '' Set.Iio k)) :
    LinearIndependent ℝ v := by
  induction m with
  | zero => exact linearIndependent_empty_type
  | succ m ih =>
    rw [linearIndependent_finSucc']
    constructor
    · refine ih fun k hk => h k.castSucc (Submodule.span_mono ?_ hk)
      rintro _ ⟨j, hj, rfl⟩
      exact ⟨j.castSucc, hj, rfl⟩
    · intro hlast
      refine h (Fin.last m) (Submodule.span_mono ?_ hlast)
      rintro _ ⟨j, rfl⟩
      exact ⟨j.castSucc, Fin.castSucc_lt_last j, rfl⟩

namespace StandardForm

/-- Row `i` of the matrix. -/
def rowVector (p : StandardForm ℝ) (i : Nat) : Fin p.numColumns → ℝ :=
  vector p.numColumns (p.rows.getD i [])

/-- Row `i` is a linear combination of the rows before it. -/
def DependsOnEarlier (p : StandardForm ℝ) (i : Nat) : Prop :=
  p.rowVector i ∈ Submodule.span ℝ (p.rowVector '' Set.Iio i)

variable {p : StandardForm ℝ}

theorem rowSpan_take {i : Nat} (hi : i ≤ p.numRows) :
    rowSpan p.numColumns (p.rows.take i) = Submodule.span ℝ (p.rowVector '' Set.Iio i) := by
  have hlen := p.length_rows
  rw [rowSpan]
  congr 1
  ext v
  constructor
  · rintro ⟨row, hrow, rfl⟩
    obtain ⟨k, hk, rfl⟩ := List.mem_take_iff_getElem.1 hrow
    refine ⟨k, (lt_min_iff.1 hk).1, ?_⟩
    rw [rowVector, List.getD_eq_getElem]
  · rintro ⟨k, hk, rfl⟩
    have hk' : k < p.rows.length := by
      rw [hlen]
      exact lt_of_lt_of_le hk hi
    refine ⟨p.rows[k], List.mem_take_iff_getElem.2 ⟨k, lt_min hk hk', rfl⟩, ?_⟩
    rw [rowVector, List.getD_eq_getElem _ _ hk']

theorem DependsOnEarlier.form_eq_zero {i : Nat} (h : p.DependsOnEarlier i) (hi : i < p.numRows)
    {y : List ℝ} (hy : ∀ row ∈ p.rows.take i, form row y = 0) :
    form (p.rows.getD i []) y = 0 := by
  rw [DependsOnEarlier, ← rowSpan_take hi.le] at h
  refine form_eq_zero_of_mem_rowSpan ?_ hy ?_ h
  · intro row hrow
    exact length_of_mem_rows (List.mem_of_mem_take hrow)
  · rw [List.getD_eq_getElem _ _ (lt_of_lt_of_eq hi p.length_rows.symm)]
    exact length_of_mem_rows (List.getElem_mem _)

theorem map_some_selectRows {α : Type} {p : StandardForm α} {indices : List Nat}
    (h : ∀ i ∈ indices, i < p.numRows) :
    (p.selectRows indices).equations.map some = indices.map fun i => p.equations[i]? := by
  show (indices.filterMap fun i => p.equations[i]?).map some = _
  induction indices with
  | nil => rfl
  | cons i indices ih =>
    obtain ⟨hi, h⟩ := List.forall_mem_cons.1 h
    have hi' : p.equations[i]? = some p.equations[i] := List.getElem?_eq_getElem hi
    rw [List.filterMap_cons, hi', List.map_cons, List.map_cons, hi', ih h]

section Selected

variable {indices : List Nat} (hlt : ∀ i ∈ indices, i < p.numRows)

include hlt

theorem numRows_selectRows : (p.selectRows indices).numRows = indices.length := by
  have hlength := congrArg List.length (map_some_selectRows hlt)
  rwa [List.length_map, List.length_map] at hlength

theorem rowVector_selectRows {k : Nat} (hk : k < indices.length) :
    (p.selectRows indices).rowVector k = p.rowVector indices[k] := by
  have hk' : k < (p.selectRows indices).equations.length :=
    lt_of_lt_of_eq hk (numRows_selectRows hlt).symm
  have hlookup := congrArg (fun l => l[k]?) (map_some_selectRows hlt)
  simp only [List.getElem?_map, List.getElem?_eq_getElem hk, List.getElem?_eq_getElem hk',
    Option.map_some, Option.some.injEq] at hlookup
  rw [rowVector, rowVector, rows, rows, List.getD_eq_getElem?_getD, List.getD_eq_getElem?_getD,
    List.getElem?_map, List.getElem?_map, List.getElem?_eq_getElem hk', hlookup]
  rfl

theorem linearIndependent_selectRows (hsorted : indices.Pairwise (· < ·))
    (hnew : ∀ i ∈ indices, ¬ p.DependsOnEarlier i) :
    LinearIndependent ℝ fun k : Fin (p.selectRows indices).numRows =>
      (p.selectRows indices).rowVector k := by
  have hrow : ∀ k : Fin (p.selectRows indices).numRows, k.val < indices.length := fun k =>
    lt_of_lt_of_eq k.isLt (numRows_selectRows hlt)
  refine linearIndependent_of_notMem_span fun k hk => ?_
  refine hnew _ (List.getElem_mem (hrow k)) ?_
  rw [rowVector_selectRows hlt (hrow k)] at hk
  refine Submodule.span_mono ?_ hk
  -- the rows selected before this one come before it in the problem too
  rintro _ ⟨j, hj, rfl⟩
  have hj' := hrow j
  exact ⟨indices[j.val], List.pairwise_iff_getElem.1 hsorted _ _ _ _ hj,
    (rowVector_selectRows hlt hj').symm⟩

end Selected

end StandardForm

namespace Analyzer.IsExact

variable {a : Analyzer ℝ} (h : a.IsExact) {p : StandardForm ℝ}

include h

open scoped Classical in
theorem independentRows_candidates {n : Nat} {rows : List (List ℝ)}
    (hrows : ∀ row ∈ rows, row.length = n) :
    independentRows 0 (a.candidates rows) =
      rows.zipIdx.filter fun q => vector n q.1 ∉ rowSpan n (rows.take q.2) := by
  have hall : independentRows 0 rows.zipIdx =
      rows.zipIdx.filter fun q => vector n q.1 ∉ rowSpan n (rows.take q.2) :=
    independentFrom_eq_filter (isOrthonormal_nil n) (rfl : rowSpan n [] = rowSpan n []) hrows
  rw [candidates, h.tolerance]
  cases a.prunes with
  | false => exact hall
  | true =>
    rcases Nat.eq_zero_or_pos n with rfl | hn
    · -- the only vector of width zero is the zero vector
      have hnil : ∀ q ∈ rows.zipIdx, q.1 = [] := fun q hq =>
        List.length_eq_zero_iff.1 (hrows _ (List.fst_mem_of_mem_zipIdx hq))
      rw [if_pos rfl, prune_eq_nil hnil]
      refine (List.filter_eq_nil_iff.2 ?_).symm
      intro q _ hq
      refine of_decide_eq_true hq ?_
      rw [Subsingleton.elim (vector 0 q.1) 0]
      exact Submodule.zero_mem _
    · rw [if_pos rfl, prune_zero hn fun q hq => hrows _ (List.fst_mem_of_mem_zipIdx hq)]
      exact hall

open scoped Classical in
theorem keptRows_eq_filter (p : StandardForm ℝ) :
    a.keptRows p.rows = (List.range p.numRows).filter fun i => ¬ p.DependsOnEarlier i := by
  have hdepends : ∀ q ∈ p.rows.zipIdx,
      vector p.numColumns q.1 ∈ rowSpan p.numColumns (p.rows.take q.2) ↔
        p.DependsOnEarlier q.2 := by
    rintro ⟨row, i⟩ hq
    obtain ⟨hi, rfl⟩ := List.getElem?_eq_some_iff.1 (List.mk_mem_zipIdx_iff_getElem?.1 hq)
    rw [StandardForm.rowSpan_take (p.length_rows ▸ hi.le), StandardForm.DependsOnEarlier,
      StandardForm.rowVector, List.getD_eq_getElem _ _ hi]
  rw [keptRows, h.tolerance, h.independentRows_candidates fun _ => StandardForm.length_of_mem_rows,
    List.filter_congr fun q hq => decide_eq_decide.2 (not_congr (hdepends q hq)),
    ← p.length_rows, List.range_eq_range', ← List.zipIdx_map_snd, List.filter_map]
  rfl

theorem mem_keptRows_iff {i : Nat} :
    i ∈ a.keptRows p.rows ↔ i < p.numRows ∧ ¬ p.DependsOnEarlier i := by
  rw [h.keptRows_eq_filter]
  simp

theorem pairwise_keptRows (p : StandardForm ℝ) : (a.keptRows p.rows).Pairwise (· < ·) := by
  rw [h.keptRows_eq_filter]
  exact List.pairwise_lt_range.filter _

end Analyzer.IsExact

namespace Analyzer

/-- Equations without a solution are rejected. Of others the rows that depend on no earlier ones
are kept, in order; they are independent and have the solutions of all the equations. -/
theorem analyze_full_rank {a : Analyzer ℝ} (h : a.IsExact) (p : StandardForm ℝ) :
    ((∃ r, (a.analyze p).value = .infeasible r) ↔ ¬ ∃ x, p.Solves x) ∧
    ((∃ x, p.Solves x) → ∃ q kept, (a.analyze p).value = .feasible q kept ∧
      (∀ i, i ∈ kept ↔ i < p.numRows ∧ ¬ p.DependsOnEarlier i) ∧
      kept.Pairwise (· < ·) ∧
      q.objective = p.objective ∧ q.equations.map some = kept.map (fun i => p.equations[i]?) ∧
      LinearIndependent ℝ (fun k : Fin q.numRows => q.rowVector k) ∧
      ∀ x, q.Solves x ↔ p.Solves x) := by
  constructor
  · constructor
    · rintro ⟨r, hr⟩ hp
      rw [h.analyze_of_solves hp] at hr
      cases hr
    · intro hp
      exact ⟨_, h.analyze_of_not_solves hp⟩
  · intro hp
    have hlt : ∀ i ∈ a.keptRows p.rows, i < p.numRows := fun i hi => (h.mem_keptRows_iff.1 hi).1
    refine ⟨_, _, h.analyze_of_solves hp, fun _ => h.mem_keptRows_iff, h.pairwise_keptRows p, rfl,
      StandardForm.map_some_selectRows hlt, ?_, ?_⟩
    · exact StandardForm.linearIndependent_selectRows hlt (h.pairwise_keptRows p)
        fun i hi => (h.mem_keptRows_iff.1 hi).2
    · intro x
      rw [h.selectRows_eq]
      exact StandardForm.solves_reduce_iff hp _

/-- The second equation is the first one negated, the third is independent of both. -/
def negated : StandardForm ℝ where
  objective := [1, 0]
  equations := [⟨[1, 1], 1⟩, ⟨[-1, -1], -1⟩, ⟨[1, 0], 1⟩]
  width := by simp

theorem analyze_full_rank_negated : (exact true).IsExact ∧ ∃ q kept,
    ((exact true).analyze negated).value = .feasible q kept ∧
      0 ∈ kept ∧ 1 ∉ kept ∧ 2 ∈ kept ∧ kept.Pairwise (· < ·) ∧
      LinearIndependent ℝ (fun k : Fin q.numRows => q.rowVector k) ∧
      ∀ x, q.Solves x ↔ negated.Solves x := by
  have hsolves : negated.Solves [1, 0] := ⟨rfl, by norm_num [negated]⟩
  have hfirst : ¬ negated.DependsOnEarlier 0 := by
    intro h
    have hform := h.form_eq_zero (y := [1, 0]) (by decide) (by simp)
    norm_num [negated, StandardForm.rows] at hform
  have hsecond : negated.DependsOnEarlier 1 := by
    have hopposite : negated.rowVector 1 = (-1 : ℝ) • negated.rowVector 0 := by
      funext j
      fin_cases j <;> norm_num [negated, StandardForm.rowVector, StandardForm.rows, vector]
    rw [StandardForm.DependsOnEarlier, hopposite]
    exact Submodule.smul_mem _ _ (Submodule.subset_span ⟨0, Nat.one_pos, rfl⟩)
  have hthird : ¬ negated.DependsOnEarlier 2 := by
    intro h
    -- along (1, -1) the first two rows are level and the third is not
    have hform := h.form_eq_zero (y := [1, -1]) (by decide)
      (by norm_num [negated, StandardForm.rows])
    norm_num [negated, StandardForm.rows] at hform
  obtain ⟨_, hfeasible⟩ := analyze_full_rank (isExact_exact true) negated
  obtain ⟨q, kept, hvalue, hmem, hsorted, _, _, hindependent, hsame⟩ := hfeasible ⟨_, hsolves⟩
  exact ⟨isExact_exact true, q, kept, hvalue, (hmem 0).2 ⟨by decide, hfirst⟩,
    fun h => ((hmem 1).1 h).2 hsecond, (hmem 2).2 ⟨by decide, hthird⟩, hsorted, hindependent, hsame⟩

end Analyzer

end PenaltySimplex
