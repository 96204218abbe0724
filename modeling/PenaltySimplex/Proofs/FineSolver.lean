import PenaltySimplex.Proofs.ExactSolver
import PenaltySimplex.Proofs.PenaltyAnswer
import PenaltySimplex.Proofs.SmallTolerance

/-!
# PenaltySimplex.Proofs.FineSolver

Solvers with fine settings: a large penalty, small tolerances and a high cap, the penalty chosen
first (`Solver.fine`).

On a given problem they analyze as an exact analyzer does, and they answer what the problem
determines (`Solver.eventually_answers`). All that they compare on the way is finite in number, so
fine settings tell it apart (`Solver.Resolves`, `Solver.eventually_resolves`).
-/

namespace PenaltySimplex

open Filter Linear

namespace Scalar

variable {K : Type} [Field K] [LinearOrder K]

theorem le_foldl_maximum (xs : List K) (most : K) :
    ∀ x ∈ most :: xs, x ≤ xs.foldl (fun most x => if most < x then x else most) most := by
  induction xs generalizing most with
  | nil =>
    intro x hx
    exact (List.mem_singleton.1 hx).le
  | cons y xs ih =>
    have hboth : most ≤ (if most < y then y else most) ∧ y ≤ if most < y then y else most := by
      split
      · exact ⟨le_of_lt ‹_›, le_rfl⟩
      · exact ⟨le_rfl, not_lt.1 ‹_›⟩
    have hlast := ih (if most < y then y else most) _ List.mem_cons_self
    intro x hx
    rw [List.foldl_cons]
    rcases List.mem_cons.1 hx with rfl | hx
    · exact hboth.1.trans hlast
    · rcases List.mem_cons.1 hx with rfl | hx
      · exact hboth.2.trans hlast
      · exact ih _ x (List.mem_cons_of_mem _ hx)

theorem maximum_nonneg (xs : List K) : 0 ≤ maximum xs :=
  le_foldl_maximum xs 0 0 List.mem_cons_self

theorem le_maximum {xs : List K} {x : K} (hx : x ∈ xs) : x ≤ maximum xs :=
  le_foldl_maximum xs 0 x (List.mem_cons_of_mem _ hx)

theorem maximum_le {xs : List K} {bound : K} (hbound : 0 ≤ bound) (h : ∀ x ∈ xs, x ≤ bound) :
    maximum xs ≤ bound := by
  refine List.foldlRecOn xs (motive := fun most => most ≤ bound) _ hbound ?_
  intro most hmost x hx
  split
  · exact h x hx
  · exact hmost

end Scalar

namespace StandardForm

section Final

variable {K : Type} [Field K] [LinearOrder K] [IsStrictOrderedRing K] {p : StandardForm K}
  {penalty : K}

omit [IsStrictOrderedRing K] in
theorem Improves.level_startingTableau {y : List K} (hy : p.Improves y) {i : Nat}
    (hi : i < p.numRows) :
    (p.startingTableau penalty).rowForm (i + 1) (fun j => y.getD j 0) = 0 := by
  obtain ⟨e, he⟩ := exists_equation hi
  rw [rowForm_startingTableau he, point_getD hy.length_eq, hy.level e (List.mem_of_getElem? he),
    mul_zero, zero_add]
  exact List.getD_eq_default _ _ (by rw [hy.length_eq]; omega)

/-- From the basic point an improving direction would lead below the least cost. -/
theorem not_improves {d : Dictionary K} (hd : d.IsDictionaryOf (p.startingTableau penalty))
    (hcost : ∀ j < p.numColumns + p.numRows, 0 ≤ d.tableau.entry 0 j) (y : List K) :
    ¬ p.Improves y := by
  intro hy
  have hlevel : ∀ i < p.numRows,
      (p.startingTableau penalty).rowForm (i + 1) (fun j => y.getD j 0) = 0 :=
    fun _ hi => hy.level_startingTableau hi
  have hsolves : (p.startingTableau penalty).Solves
      fun j => d.basicPoint j + 1 * y.getD j 0 := by
    intro i hi
    rw [Tableau.excess_add_mul, hd.solves_basicPoint i hi, hlevel i hi]
    ring
  have hnonneg : ∀ j, 0 ≤ d.basicPoint j + 1 * y.getD j 0 := by
    intro j
    rw [one_mul]
    exact add_nonneg (hd.basicPoint_nonneg j) (getD_nonneg hy.nonneg j)
  have hle := hd.cost_le hcost hsolves fun j _ => hnonneg j
  rw [Tableau.excess_add_mul, hd.cost_basicPoint, cost_level hlevel, point_getD hy.length_eq,
    artificialTotal_getD hy.length_eq] at hle
  linarith [hy.falls]

end Final

end StandardForm

namespace Solver

/-! ## Fine settings -/

/-- Tolerances that are positive and below some bounds, and a cap above another. -/
structure Within (s : Solver ℝ) (tolerance eps : ℝ) (cap : Nat) : Prop where
  tolerance_pos : 0 < s.analyzer.tolerance
  tolerance_le : s.analyzer.tolerance ≤ tolerance
  pivotTolerance_pos : 0 < s.pivotTolerance
  pivotTolerance_le : s.pivotTolerance ≤ eps
  le_maxIterations : cap ≤ s.maxIterations

theorem Within.mono {s : Solver ℝ} {tolerance tolerance' eps eps' : ℝ} {cap cap' : Nat}
    (h : s.Within tolerance eps cap) (htolerance : tolerance ≤ tolerance') (heps : eps ≤ eps')
    (hcap : cap' ≤ cap) : s.Within tolerance' eps' cap' where
  tolerance_pos := h.tolerance_pos
  tolerance_le := h.tolerance_le.trans htolerance
  pivotTolerance_pos := h.pivotTolerance_pos
  pivotTolerance_le := h.pivotTolerance_le.trans heps
  le_maxIterations := hcap.trans h.le_maxIterations

/-- The penalty is large enough, and for that penalty the tolerances are small enough and the cap
is high enough. -/
def fine : Filter (Solver ℝ) where
  sets := {S | ∃ penalty₀, ∀ penalty, penalty₀ ≤ penalty → ∃ tolerance₀ eps₀ cap₀,
    0 < tolerance₀ ∧ 0 < eps₀ ∧
      ∀ s : Solver ℝ, s.penalty = penalty → s.Within tolerance₀ eps₀ cap₀ → s ∈ S}
  univ_sets := ⟨0, fun _ _ => ⟨1, 1, 0, one_pos, one_pos, fun _ _ _ => trivial⟩⟩
  sets_of_superset := by
    rintro S T ⟨penalty₀, hS⟩ hsub
    refine ⟨penalty₀, fun penalty hle => ?_⟩
    obtain ⟨tolerance₀, eps₀, cap₀, htolerance, heps, hS⟩ := hS penalty hle
    exact ⟨tolerance₀, eps₀, cap₀, htolerance, heps, fun s hs hw => hsub (hS s hs hw)⟩
  inter_sets := by
    rintro S T ⟨penalty₁, hS⟩ ⟨penalty₂, hT⟩
    refine ⟨max penalty₁ penalty₂, fun penalty hle => ?_⟩
    obtain ⟨tolerance₁, eps₁, cap₁, htolerance₁, heps₁, hS⟩ := hS penalty (le_of_max_le_left hle)
    obtain ⟨tolerance₂, eps₂, cap₂, htolerance₂, heps₂, hT⟩ := hT penalty (le_of_max_le_right hle)
    refine ⟨min tolerance₁ tolerance₂, min eps₁ eps₂, max cap₁ cap₂,
      lt_min htolerance₁ htolerance₂, lt_min heps₁ heps₂, fun s hs hw => ⟨?_, ?_⟩⟩
    · exact hS s hs (hw.mono (min_le_left _ _) (min_le_left _ _) (le_max_left _ _))
    · exact hT s hs (hw.mono (min_le_right _ _) (min_le_right _ _) (le_max_right _ _))

theorem eventually_fine_iff {P : Solver ℝ → Prop} : (∀ᶠ s in fine, P s) ↔
    ∃ penalty₀, ∀ penalty, penalty₀ ≤ penalty → ∃ tolerance₀ eps₀ cap₀,
      0 < tolerance₀ ∧ 0 < eps₀ ∧
        ∀ s : Solver ℝ, s.penalty = penalty → s.Within tolerance₀ eps₀ cap₀ → P s :=
  Iff.rfl

theorem eventually_penalty {P : ℝ → Prop} (h : ∀ᶠ penalty in atTop, P penalty) :
    ∀ᶠ s in fine, P s.penalty := by
  obtain ⟨penalty₀, h⟩ := eventually_atTop.1 h
  refine eventually_fine_iff.2 ⟨penalty₀, fun penalty hle => ?_⟩
  refine ⟨1, 1, 0, one_pos, one_pos, ?_⟩
  rintro s rfl _
  exact h _ hle

theorem eventually_tolerance {P : ℝ → Set.Ioi (0 : ℝ) → Prop}
    (h : ∀ penalty, ∀ᶠ e in atBot, P penalty e) :
    ∀ᶠ s in fine, ∃ hpos : 0 < s.analyzer.tolerance,
      P s.penalty ⟨s.analyzer.tolerance, hpos⟩ := by
  refine eventually_fine_iff.2 ⟨0, fun penalty _ => ?_⟩
  obtain ⟨bound, hbound⟩ := eventually_atBot.1 (h penalty)
  refine ⟨bound, 1, 0, bound.property, one_pos, ?_⟩
  rintro s rfl hw
  exact ⟨hw.tolerance_pos, hbound ⟨_, hw.tolerance_pos⟩ hw.tolerance_le⟩

theorem eventually_pivotTolerance {P : ℝ → ℝ → Prop}
    (h : ∀ penalty, ∃ bound, 0 < bound ∧ ∀ eps, 0 < eps → eps ≤ bound → P penalty eps) :
    ∀ᶠ s in fine, 0 < s.pivotTolerance ∧ P s.penalty s.pivotTolerance := by
  refine eventually_fine_iff.2 ⟨0, fun penalty _ => ?_⟩
  obtain ⟨bound, hbound, hall⟩ := h penalty
  refine ⟨1, bound, 0, one_pos, hbound, ?_⟩
  rintro s rfl hw
  exact ⟨hw.pivotTolerance_pos, hall _ hw.pivotTolerance_pos hw.pivotTolerance_le⟩

theorem eventually_le_maxIterations (bound : ℝ → Nat) :
    ∀ᶠ s in fine, bound s.penalty ≤ s.maxIterations := by
  refine eventually_fine_iff.2 ⟨0, fun penalty _ => ⟨1, 1, bound penalty, one_pos, one_pos, ?_⟩⟩
  rintro s rfl hw
  exact hw.le_maxIterations

/-! ## Runs with fine settings -/

/-- The settings tell apart all that a run on `p` and the check after it compare. -/
structure Resolves (s : Solver ℝ) (p : StandardForm ℝ) : Prop where
  outweighs : ∃ v, (p.IsFeasible → ∃ x, p.Feasible x ∧ form p.objective x ≤ v) ∧
    ∀ d, d.IsDictionaryOf (p.startingTableau s.penalty) → p.Outweighs s.penalty v d
  pivotTolerance_pos : 0 < s.pivotTolerance
  resolvedBy : (p.startingTableau s.penalty).ResolvedBy s.pivotTolerance
  card_bases_le : (finite_bases (p.startingTableau s.penalty).numConstraints
    (p.startingTableau s.penalty).numVariables).toFinset.card ≤ s.maxIterations
  residual_eq_none_iff : ∀ d, d.IsDictionaryOf (p.startingTableau s.penalty) →
    (residualArtificial? p.numColumns (s.analyzer.tolerance * rhsScale p) d = none ↔
      p.artificialTotal d.basicPoint ≤ 0)

theorem rhsScale_pos (p : StandardForm ℝ) : 0 < rhsScale p :=
  add_pos_of_pos_of_nonneg one_pos (Scalar.maximum_nonneg _)

theorem eventually_residual (p : StandardForm ℝ) (penalty : ℝ) :
    ∀ᶠ e : Set.Ioi (0 : ℝ) in atBot, ∀ d, d.IsDictionaryOf (p.startingTableau penalty) →
      (residualArtificial? p.numColumns (e * rhsScale p) d = none ↔
        p.artificialTotal d.basicPoint ≤ 0) := by
  refine eventually_forall_dictionary (t := fun _ => p.startingTableau penalty)
    (fun _ => rfl) (fun _ => rfl) ?_
  intro _ d' hd'
  have hrhs : ∀ᶠ e : Set.Ioi (0 : ℝ) in atBot, ∀ i ∈ Finset.range d'.tableau.numConstraints,
      (e : ℝ) < d'.tableau.rhs (i + 1) / rhsScale p ↔ 0 < d'.tableau.rhs (i + 1) / rhsScale p :=
    (eventually_all_finset _).2 fun i _ => eventually_lt_iff _
  filter_upwards [hrhs] with e he d hd hbasis
  rw [← residualArtificial?_eq_none_iff hd, residualArtificial?, residualArtificial?,
    Option.map_eq_none_iff, Option.map_eq_none_iff, List.find?_eq_none, List.find?_eq_none]
  refine forall₂_congr fun x hx => ?_
  obtain ⟨hi, _⟩ := hd.canonical.basic_of_mem_zipIdx hx
  have heq := (hd.equivalent_of hd').toSameSolutions
  have hvalue := hd.canonical.rhs_eq hd'.canonical hbasis.symm heq hi
  have hlt := he x.2 (Finset.mem_range.2 (heq.numConstraints ▸ hi))
  rw [← hvalue, lt_div_iff₀ (rhsScale_pos p), div_pos_iff_of_pos_right (rhsScale_pos p)] at hlt
  simp only [decide_eq_true_eq, hlt]

theorem eventually_resolves (p : StandardForm ℝ) : ∀ᶠ s in fine, s.Resolves p := by
  have hvalue : ∃ v, p.IsFeasible → ∃ x, p.Feasible x ∧ form p.objective x ≤ v := by
    by_cases hp : p.IsFeasible
    · obtain ⟨x, hx⟩ := hp
      exact ⟨_, fun _ => ⟨x, hx, le_rfl⟩⟩
    · exact ⟨0, fun h => absurd h hp⟩
  obtain ⟨v, hv⟩ := hvalue
  filter_upwards [eventually_penalty (p.eventually_outweighs v),
    eventually_pivotTolerance fun penalty => (p.startingTableau penalty).exists_resolvedBy,
    eventually_le_maxIterations fun penalty =>
      (finite_bases (p.startingTableau penalty).numConstraints
        (p.startingTableau penalty).numVariables).toFinset.card,
    eventually_tolerance (eventually_residual p)]
    with s houtweighs hpivot hcap hresidual
  obtain ⟨_, hresidual⟩ := hresidual
  exact ⟨⟨v, hv, houtweighs⟩, hpivot.1, hpivot.2, hcap, hresidual⟩

theorem Resolves.answers_conclude {s : Solver ℝ} {p : StandardForm ℝ} (h : s.Resolves p)
    (hp : ∃ x, p.Solves x) : p.Answers (s.conclude p (s.outcome p)).value := by
  have hbasis := p.hasUnitBasis_startingTableau s.penalty
  have hrhs := p.rhs_startingTableau_nonneg s.penalty
  have hd : (s.outcome p).final.IsDictionaryOf (p.startingTableau s.penalty) :=
    Tableau.isDictionaryOf_final h.resolvedBy hbasis hrhs _
  obtain ⟨v, hv, houtweighs⟩ := h.outweighs
  rcases s.conclude_cases p (s.outcome p) with ⟨c, hstop, hvalue⟩ | ⟨hstop, _⟩ |
    ⟨hstop, hsome, hvalue⟩ | ⟨hstop, hnone, hvalue⟩
  · -- the unbounded column is a direction of the problem itself
    obtain ⟨hc, hcost, hcolumn⟩ :=
      Tableau.column_nonpos_of_stop h.resolvedBy hbasis hrhs hstop
    have htotal := (houtweighs _ hd).artificialTotal_direction hd hc hcost
    rw [hvalue]
    exact .unbounded _ ⟨hp, _, StandardForm.improves_direction hd hc hcost hcolumn htotal⟩
  · exact absurd hstop (Tableau.stop_ne_iterationLimit hbasis hrhs h.resolvedBy
      h.pivotTolerance_pos h.card_bases_le)
  · have hcost := Tableau.reducedCost_nonneg_of_stop h.resolvedBy hbasis hrhs hstop
    rw [hvalue]
    refine .infeasible _ (fun hfeasible => ?_) fun himprovable => ?_
    · obtain ⟨x, hx, hle⟩ := hv hfeasible
      exact hsome ((h.residual_eq_none_iff _ hd).2
        ((houtweighs _ hd).artificialTotal_nonpos hd hcost hx hle))
    · obtain ⟨_, y, hy⟩ := himprovable
      exact StandardForm.not_improves hd hcost y hy
  · have hcost := Tableau.reducedCost_nonneg_of_stop h.resolvedBy hbasis hrhs hstop
    have htotal := (h.residual_eq_none_iff _ hd).1 hnone
    rw [hvalue, values_final hd]
    refine .optimal _ _ _ ⟨⟨_, StandardForm.feasible_basicPoint hd htotal, rfl⟩, ?_⟩
    rintro _ ⟨z, hz, rfl⟩
    have hleast := StandardForm.objectiveValue_le hd hcost hz
    have hzero := le_antisymm htotal (Finset.sum_nonneg fun i _ => hd.basicPoint_nonneg _)
    rwa [StandardForm.objectiveValue_eq hd, hzero, mul_zero, add_zero] at hleast

/-! ## Answers -/

theorem sameProgram_reduce {p : StandardForm ℝ} (hp : ∃ x, p.Solves x) (prunes : Bool) :
    p.SameProgram (p.reduce prunes) where
  objective := rfl
  solves_iff _ := StandardForm.solves_reduce_iff hp prunes

theorem eventually_answers (f : Factorization) (p : StandardForm ℝ) :
    ∀ᶠ s in fine, s.analyzer.MeasuresBy f →
      (s.analyzer.analyze p).value = ((Analyzer.exact false).analyze p).value ∧
        p.Answers (s.solveStandard p).value := by
  filter_upwards [eventually_resolves (p.reduce false),
    eventually_tolerance fun _ => Analyzer.eventually_analyze f p] with s hresolves hanalyze hf
  obtain ⟨_, hanalyze⟩ := hanalyze
  have hvalue := hanalyze s.analyzer rfl hf
  refine ⟨hvalue, ?_⟩
  by_cases hp : ∃ x, p.Solves x
  · have hsame := sameProgram_reduce hp false
    rw [(Analyzer.isExact_exact false).analyze_of_solves hp,
      (Analyzer.isExact_exact false).selectRows_eq] at hvalue
    rw [value_of_feasible hvalue]
    exact hsame.symm.answers (hresolves.answers_conclude (hsame.exists_solves_iff.2 hp))
  · rw [(Analyzer.isExact_exact false).analyze_of_not_solves hp] at hvalue
    rw [value_of_infeasible hvalue]
    exact .infeasible 0 (fun ⟨x, hx⟩ => hp ⟨x, hx.toSolves⟩) fun h => hp h.1

/-- What fine settings answer depends on the objective and the solutions only, not on the equations
that they are the solutions of. -/
theorem eventually_agree (f : Factorization) {p q : StandardForm ℝ} (h : p.SameProgram q) :
    ∀ᶠ s in fine, s.analyzer.MeasuresBy f →
      p.Answers (s.solveStandard p).value ∧
      (s.analyzer.analyze q).value.isFeasible = (s.analyzer.analyze p).value.isFeasible ∧
      (s.solveStandard q).value.status = (s.solveStandard p).value.status ∧
      (s.solveStandard q).value.objectiveValue = (s.solveStandard p).value.objectiveValue := by
  filter_upwards [eventually_answers f p, eventually_answers f q] with s hp hq hf
  obtain ⟨hanalyze, hanswer⟩ := hp hf
  obtain ⟨hanalyze', hanswer'⟩ := hq hf
  refine ⟨hanswer, ?_, hanswer'.unique (h.answers hanswer)⟩
  have hexact := Analyzer.isExact_exact false
  rw [hanalyze, hanalyze', Bool.eq_iff_iff, hexact.isFeasible_analyze_iff,
    hexact.isFeasible_analyze_iff, h.exists_solves_iff]

end Solver
end PenaltySimplex
