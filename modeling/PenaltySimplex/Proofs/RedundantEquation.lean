import PenaltySimplex.Proofs.Analysis
import PenaltySimplex.Proofs.ExactSolver
import PenaltySimplex.Proofs.MatrixForm
import PenaltySimplex.Proofs.Verdict

/-!
# PenaltySimplex.Proofs.RedundantEquation

An equation that is a linear combination of equations before it changes nothing: with real
arithmetic and an exact analysis the answer is the same without it
(`Solver.solveStandard_insertEquation`).

An exact analysis keeps the equations whose rows are no linear combinations of the rows before them
(`newEquations`). The inserted one is not among them. It adds nothing to the span of the rows before
it, so the equations behind it are kept or left out as they are without it. Every point that solves
the others solves it too, so the analysis accepts the same equations.
-/

namespace PenaltySimplex

open Linear

/-! ## Linear combinations -/

/-- Coefficients and right-hand side are those of the equations `es`, added up with weights. -/
structure Equation.IsCombination (e : Equation ℝ) (weights : List ℝ) (es : List (Equation ℝ)) :
    Prop where
  coefficients : ∀ j,
    e.coefficients.getD j 0 = form weights (es.map fun f => f.coefficients.getD j 0)
  rhs : e.rhs = form weights (es.map Equation.rhs)

namespace Equation.IsCombination

variable {e : Equation ℝ} {weights : List ℝ} {es : List (Equation ℝ)}

theorem sum_form_mul {n : Nat} (hes : ∀ f ∈ es, f.coefficients.length ≤ n) (weights x : List ℝ) :
    ∑ j ∈ Finset.range n, form weights (es.map fun f => f.coefficients.getD j 0) * x.getD j 0 =
      form weights (es.map fun f => form f.coefficients x) := by
  induction es generalizing weights with
  | nil => simp
  | cons f es ih =>
    obtain ⟨hf, hes⟩ := List.forall_mem_cons.1 hes
    cases weights with
    | nil => simp
    | cons w weights =>
      simp only [List.map_cons, form_cons, add_mul, Finset.sum_add_distrib, ih hes weights,
        mul_assoc, ← Finset.mul_sum, ← form_eq_sum hf]

theorem form_eq (h : e.IsCombination weights es) {n : Nat} (he : e.coefficients.length ≤ n)
    (hes : ∀ f ∈ es, f.coefficients.length ≤ n) (x : List ℝ) :
    form e.coefficients x = form weights (es.map fun f => form f.coefficients x) := by
  rw [form_eq_sum he, ← sum_form_mul hes]
  simp only [h.coefficients]

/-- What solves the equations solves their combinations. -/
theorem holds (h : e.IsCombination weights es) {n : Nat} (he : e.coefficients.length ≤ n)
    (hes : ∀ f ∈ es, f.coefficients.length ≤ n) {x : List ℝ}
    (hx : ∀ f ∈ es, form f.coefficients x = f.rhs) : form e.coefficients x = e.rhs := by
  rw [h.form_eq he hes, h.rhs, List.map_congr_left hx]

theorem form_mem_rowSpan (n : Nat) (weights : List ℝ) (es : List (Equation ℝ)) :
    (fun j : Fin n => form weights (es.map fun f => f.coefficients.getD j 0)) ∈
      rowSpan n (es.map Equation.coefficients) := by
  induction es generalizing weights with
  | nil =>
    simp only [List.map_nil, form_nil_right]
    exact Submodule.zero_mem _
  | cons f es ih =>
    cases weights with
    | nil =>
      simp only [form_nil_left]
      exact Submodule.zero_mem _
    | cons w weights =>
      simp only [List.map_cons, form_cons]
      refine Submodule.add_mem _ (Submodule.smul_mem _ w (vector_mem_rowSpan List.mem_cons_self)) ?_
      exact rowSpan_mono (List.subset_cons_self _ _) (ih weights)

theorem vector_mem (h : e.IsCombination weights es) (n : Nat) :
    vector n e.coefficients ∈ rowSpan n (es.map Equation.coefficients) := by
  have hvector : vector n e.coefficients =
      fun j : Fin n => form weights (es.map fun f => f.coefficients.getD j 0) :=
    funext fun j => h.coefficients j
  rw [hvector]
  exact form_mem_rowSpan n weights es

end Equation.IsCombination

/-! ## The equations that an exact analysis keeps -/

open scoped Classical in
/-- The equations whose rows are outside the span of the rows before them; `seen` are the rows
before all of them. -/
noncomputable def newEquations (n : Nat) (seen : List (List ℝ)) :
    List (Equation ℝ) → List (Equation ℝ)
  | [] => []
  | e :: es =>
    if vector n e.coefficients ∈ rowSpan n seen then newEquations n (seen ++ [e.coefficients]) es
    else e :: newEquations n (seen ++ [e.coefficients]) es

section NewEquations

variable {n : Nat}

theorem newEquations_cons_of_mem {seen : List (List ℝ)} {e : Equation ℝ}
    (h : vector n e.coefficients ∈ rowSpan n seen) (es : List (Equation ℝ)) :
    newEquations n seen (e :: es) = newEquations n (seen ++ [e.coefficients]) es := by
  rw [newEquations, if_pos h]

/-- Only the span of the rows before them matters. -/
theorem newEquations_congr {seen seen' : List (List ℝ)} (h : rowSpan n seen = rowSpan n seen')
    (es : List (Equation ℝ)) : newEquations n seen es = newEquations n seen' es := by
  induction es generalizing seen seen' with
  | nil => rfl
  | cons e es ih =>
    have hnext : rowSpan n (seen ++ [e.coefficients]) = rowSpan n (seen' ++ [e.coefficients]) := by
      rw [rowSpan_concat, rowSpan_concat, h]
    rw [newEquations, newEquations, h, ih hnext]

theorem newEquations_append (seen : List (List ℝ)) (es fs : List (Equation ℝ)) :
    newEquations n seen (es ++ fs) =
      newEquations n seen es ++ newEquations n (seen ++ es.map Equation.coefficients) fs := by
  induction es generalizing seen with
  | nil => rw [List.map_nil, List.append_nil]; rfl
  | cons e es ih =>
    rw [List.cons_append, newEquations, newEquations, ih, List.append_assoc, List.map_cons]
    split <;> rfl

theorem newEquations_insert {es : List (Equation ℝ)} {e : Equation ℝ}
    (h : vector n e.coefficients ∈ rowSpan n (es.map Equation.coefficients))
    (fs : List (Equation ℝ)) :
    newEquations n [] (es ++ e :: fs) = newEquations n [] (es ++ fs) := by
  rw [newEquations_append, newEquations_append, List.nil_append, newEquations_cons_of_mem h,
    newEquations_congr (rowSpan_concat_of_mem h)]

open scoped Classical in
theorem newEquations_eq_filter (seen : List (List ℝ)) (es : List (Equation ℝ)) :
    newEquations n seen es = ((es.zipIdx seen.length).filter fun q =>
      vector n q.1.coefficients ∉
        rowSpan n ((seen ++ es.map Equation.coefficients).take q.2)).map Prod.fst := by
  induction es generalizing seen with
  | nil => rfl
  | cons e es ih =>
    have hrest := ih (seen ++ [e.coefficients])
    rw [List.length_append, List.length_singleton, List.append_assoc, List.singleton_append]
      at hrest
    have htake : (seen ++ e.coefficients :: es.map Equation.coefficients).take seen.length = seen :=
      List.take_left
    rw [newEquations, hrest, List.zipIdx_cons, List.filter_cons, List.map_cons, htake]
    by_cases hmem : vector n e.coefficients ∈ rowSpan n seen
    · rw [if_pos hmem, if_neg (by simpa using hmem)]
    · rw [if_neg hmem, if_pos (by simpa using hmem), List.map_cons]

end NewEquations

theorem Analyzer.IsExact.equations_selectRows {a : Analyzer ℝ} (h : a.IsExact)
    (p : StandardForm ℝ) :
    (p.selectRows (a.keptRows p.rows)).equations = newEquations p.numColumns [] p.equations := by
  have hrows : p.rows.zipIdx = p.equations.zipIdx.map (Prod.map Equation.coefficients id) :=
    List.zipIdx_map
  show (a.keptRows p.rows).filterMap (fun i => p.equations[i]?) = _
  rw [keptRows, h.tolerance, h.independentRows_candidates fun _ => StandardForm.length_of_mem_rows,
    hrows, List.filter_map, List.map_map, List.filterMap_map, newEquations_eq_filter]
  -- the number of an equation leads back to it
  rw [← List.filterMap_eq_map]
  refine List.filterMap_congr fun q hq => ?_
  exact List.mk_mem_zipIdx_iff_getElem?.1 (List.mem_of_mem_filter hq)

/-! ## Inserting an equation -/

namespace StandardForm

/-- The problem with one more equation, before equation `k`. -/
def insertEquation {α : Type} (p : StandardForm α) (k : Nat) (e : Equation α)
    (h : e.coefficients.length = p.numColumns) : StandardForm α where
  objective := p.objective
  equations := p.equations.take k ++ e :: p.equations.drop k
  width := by
    intro f hf
    obtain hf | hf := List.mem_append.1 hf
    · exact p.width f (List.mem_of_mem_take hf)
    · obtain rfl | hf := List.mem_cons.1 hf
      · exact h
      · exact p.width f (List.mem_of_mem_drop hf)

section Combination

variable {p : StandardForm ℝ} {k : Nat} {e : Equation ℝ} {weights : List ℝ}
  (h : e.coefficients.length = p.numColumns)
  (hcombination : e.IsCombination weights (p.equations.take k))

include hcombination

theorem solves_insertEquation_iff {x : List ℝ} :
    (p.insertEquation k e h).Solves x ↔ p.Solves x := by
  have hsplit : ∀ f, f ∈ (p.insertEquation k e h).equations ↔ f = e ∨ f ∈ p.equations := by
    intro f
    conv_rhs => rw [← List.take_append_drop k p.equations]
    simp only [insertEquation, List.mem_append, List.mem_cons]
    tauto
  constructor
  · intro hx
    exact ⟨hx.length_eq, fun f hf => hx.holds f ((hsplit f).2 (.inr hf))⟩
  · intro hx
    refine ⟨hx.length_eq, fun f hf => ?_⟩
    obtain rfl | hf := (hsplit f).1 hf
    · exact hcombination.holds h.le (fun f hf => (p.width f (List.mem_of_mem_take hf)).le)
        fun f hf => hx.holds f (List.mem_of_mem_take hf)
    · exact hx.holds f hf

theorem selectRows_insertEquation {a : Analyzer ℝ} (ha : a.IsExact) :
    (p.insertEquation k e h).selectRows (a.keptRows (p.insertEquation k e h).rows) =
      p.selectRows (a.keptRows p.rows) := by
  refine ext_of_eq rfl ?_
  rw [ha.equations_selectRows, ha.equations_selectRows]
  show newEquations p.numColumns [] (p.equations.take k ++ e :: p.equations.drop k) = _
  rw [newEquations_insert (hcombination.vector_mem _), List.take_append_drop]

end Combination

end StandardForm

namespace Solver

/-- An equation that is a combination of equations before it changes neither the status nor the
values, the objective value or the number of exchanges, whatever the penalty, the tolerance of
pivots, the cap and the choice to prune. -/
theorem solveStandard_insertEquation {s : Solver ℝ} (hs : s.analyzer.IsExact) {p : StandardForm ℝ}
    {k : Nat} {e : Equation ℝ} (h : e.coefficients.length = p.numColumns) {weights : List ℝ}
    (hcombination : e.IsCombination weights (p.equations.take k)) :
    (s.solveStandard (p.insertEquation k e h)).value = (s.solveStandard p).value := by
  have hiff := exists_congr fun x => StandardForm.solves_insertEquation_iff h hcombination (x := x)
  by_cases hp : ∃ x, p.Solves x
  · rw [value_of_feasible (hs.analyze_of_solves (hiff.2 hp)),
      value_of_feasible (hs.analyze_of_solves hp),
      StandardForm.selectRows_insertEquation h hcombination hs]
  · rw [value_of_infeasible (hs.analyze_of_not_solves (mt hiff.1 hp)),
      value_of_infeasible (hs.analyze_of_not_solves hp)]

/-- Twice the only equation, inserted behind it. -/
theorem solveStandard_insertEquation_double :
    (exact 1 1 true).analyzer.IsExact ∧
    Equation.IsCombination ⟨[2, 2], 2⟩ [2] (cappedForm.equations.take 1) ∧
    ∃ k, ((exact 1 1 true).solveStandard ⟨[-1, 0], [⟨[1, 1], 1⟩, ⟨[2, 2], 2⟩], by simp⟩).value =
      .optimal [1, 0] (-1) k := by
  have hcombination : Equation.IsCombination (⟨[2, 2], 2⟩ : Equation ℝ) [2] [⟨[1, 1], 1⟩] := by
    constructor
    · intro j
      match j with
      | 0 | 1 => simp
      | j + 2 => simp
    · show (2 : ℝ) = form [2] [1]
      rw [form_cons, form_nil_left]
      norm_num
  obtain ⟨k, hk⟩ := solveStandard_capped
  refine ⟨Analyzer.isExact_exact true, hcombination, k, ?_⟩
  rw [← hk]
  exact solveStandard_insertEquation (s := exact 1 1 true) (Analyzer.isExact_exact true)
    (p := cappedForm) (k := 1) (e := ⟨[2, 2], 2⟩) rfl hcombination

end Solver

end PenaltySimplex
