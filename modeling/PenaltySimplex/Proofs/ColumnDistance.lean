import Mathlib.Analysis.InnerProductSpace.PiL2
import Mathlib.Data.List.GetD
import Mathlib.Topology.Algebra.Module.FiniteDimension
import PenaltySimplex.Consistency
import PenaltySimplex.Proofs.Program

/-!
# PenaltySimplex.Proofs.ColumnDistance

The exact distance of a right-hand side from the column space of a matrix, and what it decides:
the equations have a solution exactly when it is zero (`StandardForm.columnDistance_eq_zero_iff`).
An analyzer that measures it, with tolerance zero, rejects exactly the equations without one.
-/

namespace PenaltySimplex
namespace Linear

/-- Column `j` of a matrix given by its rows. -/
noncomputable def columnVector (rows : List (List ℝ)) (j : Nat) :
    EuclideanSpace ℝ (Fin rows.length) :=
  WithLp.toLp 2 fun i => rows[i.val].getD j 0

/-- The span of the columns of a matrix given by its width and rows. -/
noncomputable def columnSpan (width : Nat) (rows : List (List ℝ)) :
    Submodule ℝ (EuclideanSpace ℝ (Fin rows.length)) :=
  Submodule.span ℝ (Set.range fun j : Fin width => columnVector rows j)

noncomputable def columnDistance (width : Nat) (rows : List (List ℝ)) (b : List ℝ) : ℝ :=
  Metric.infDist (WithLp.toLp 2 fun i : Fin rows.length => b.getD i 0)
    (columnSpan width rows : Set (EuclideanSpace ℝ (Fin rows.length)))

/-- The distance of a right-hand side from any space. -/
noncomputable def distanceFrom {m : Nat} (s : Submodule ℝ (EuclideanSpace ℝ (Fin m)))
    (b : List ℝ) : ℝ :=
  Metric.infDist (WithLp.toLp 2 fun i : Fin m => b.getD i 0)
    (s : Set (EuclideanSpace ℝ (Fin m)))

theorem mem_columnSpan {width : Nat} {rows : List (List ℝ)}
    (hwidth : ∀ row ∈ rows, row.length = width) (b : List ℝ) :
    WithLp.toLp 2 (fun i : Fin rows.length => b.getD i 0) ∈ columnSpan width rows ↔
      ∃ x : List ℝ, x.length = width ∧
        ∀ i : Fin rows.length, form rows[i.val] x = b.getD i 0 := by
  -- the combination of the columns with the entries of `x` is the vector of the row forms
  have hentry : ∀ (c : Fin width → ℝ) (x : List ℝ), (∀ j : Fin width, c j = x.getD j 0) →
      ∀ i : Fin rows.length,
        (∑ j : Fin width, c j • columnVector rows j) i = form rows[i.val] x := by
    intro c x hc i
    rw [form_eq_sum (hwidth _ (List.getElem_mem i.isLt)).le, Finset.sum_range]
    simp only [WithLp.ofLp_sum, WithLp.ofLp_smul, Finset.sum_apply, Pi.smul_apply, smul_eq_mul]
    refine Finset.sum_congr rfl ?_
    intro j _
    rw [hc j, mul_comm]
    rfl
  rw [columnSpan, Submodule.mem_span_range_iff_exists_fun]
  constructor
  · rintro ⟨c, hc⟩
    refine ⟨List.ofFn c, List.length_ofFn, ?_⟩
    intro i
    rw [← hentry c _ (fun j => by simp) i, hc]
  · rintro ⟨x, _, hx⟩
    refine ⟨fun j => x.getD j 0, ?_⟩
    ext i
    rw [hentry _ x (fun _ => rfl) i, hx i]

/-- A finite-dimensional space is closed, so the distance vanishes on the space only. -/
theorem columnDistance_eq_zero_iff {width : Nat} {rows : List (List ℝ)}
    (hwidth : ∀ row ∈ rows, row.length = width) (b : List ℝ) :
    columnDistance width rows b = 0 ↔ ∃ x : List ℝ, x.length = width ∧
        ∀ i : Fin rows.length, form rows[i.val] x = b.getD i 0 := by
  rw [← mem_columnSpan hwidth, columnDistance]
  exact ((Submodule.closed_of_finiteDimensional _).mem_iff_infDist_zero
    (Submodule.nonempty _)).symm

end Linear

open Linear

theorem StandardForm.columnDistance_eq_zero_iff (p : StandardForm ℝ) :
    columnDistance p.numColumns p.rows p.rhs = 0 ↔ ∃ x, p.Solves x := by
  rw [Linear.columnDistance_eq_zero_iff fun _ => length_of_mem_rows]
  refine exists_congr fun x => ⟨fun h => ⟨h.1, ?_⟩, fun h => ⟨h.1, ?_⟩⟩
  · intro e he
    obtain ⟨i, hi, rfl⟩ := List.getElem_of_mem he
    have hrow := h.2 ⟨i, by rwa [p.length_rows]⟩
    rw [rhs, List.getD_eq_getElem _ _ (by rwa [List.length_map])] at hrow
    simpa [rows] using hrow
  · intro i
    have hi : i.val < p.equations.length := lt_of_lt_of_eq i.isLt p.length_rows
    have hholds := h.holds _ (List.getElem_mem hi)
    rw [rhs, List.getD_eq_getElem _ _ (by rwa [List.length_map])]
    simpa [rows] using hholds

/-- The tolerance is zero and the residual is the exact distance. -/
structure Analyzer.IsExact (a : Analyzer ℝ) : Prop where
  tolerance : a.tolerance = 0
  distance : ∀ p : StandardForm ℝ, (a.measure p.numColumns p.rows p.rhs).distance =
    columnDistance p.numColumns p.rows p.rhs

/-- Analyzes with tolerance zero and the exact distance. -/
noncomputable def Analyzer.exact (prunes : Bool) : Analyzer ℝ where
  tolerance := 0
  prunes
  measure width rows b := ⟨none, columnDistance width rows b⟩

theorem Analyzer.isExact_exact (prunes : Bool) : (Analyzer.exact prunes).IsExact :=
  ⟨rfl, fun _ => rfl⟩

namespace Analyzer.IsExact

variable {a : Analyzer ℝ} (h : a.IsExact) {p : StandardForm ℝ}

include h

theorem analyze_of_solves (hp : ∃ x, p.Solves x) :
    (a.analyze p).value = .feasible (p.selectRows (a.keptRows p.rows)) (a.keptRows p.rows) := by
  rw [a.value_analyze, if_neg]
  rw [h.distance, h.tolerance, p.columnDistance_eq_zero_iff.2 hp]
  exact lt_irrefl 0

theorem analyze_of_not_solves (hp : ¬ ∃ x, p.Solves x) :
    (a.analyze p).value = .infeasible (columnDistance p.numColumns p.rows p.rhs) := by
  rw [a.value_analyze, h.distance, h.tolerance, if_pos]
  exact lt_of_le_of_ne Metric.infDist_nonneg fun h₀ =>
    hp (p.columnDistance_eq_zero_iff.1 h₀.symm)

theorem isFeasible_analyze_iff (p : StandardForm ℝ) :
    (a.analyze p).value.isFeasible = true ↔ ∃ x, p.Solves x := by
  by_cases hp : ∃ x, p.Solves x
  · rw [h.analyze_of_solves hp]
    exact iff_of_true rfl hp
  · rw [h.analyze_of_not_solves hp]
    exact iff_of_false Bool.false_ne_true hp

end Analyzer.IsExact

end PenaltySimplex
