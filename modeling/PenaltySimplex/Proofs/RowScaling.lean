import PenaltySimplex.Proofs.FineSolver

/-!
# PenaltySimplex.Proofs.RowScaling

What happens to the answers when an equation is multiplied by a positive number.

The solutions stay the same, so fine settings give the same verdict, status and objective value
(`Solver.solveStandard_scaleRow`). How fine they must be depends on the problem and on the factor.
No fixed settings do for all factors: the penalty and the tolerances are absolute numbers, and a
row that is small enough loses against them (`Solver.preset_scaleRow`).
-/

namespace PenaltySimplex

open Linear InnerProductSpace

/-! ## Scaled rows -/

/-- Both sides of the equation multiplied by `k`. -/
def Equation.scale {α : Type} [Mul α] (k : α) (e : Equation α) : Equation α where
  coefficients := e.coefficients.map (k * ·)
  rhs := k * e.rhs

theorem forall_mem_modify {α : Type} {P : α → Prop} {f : α → α} (hf : ∀ a, P (f a) ↔ P a)
    (l : List α) (i : Nat) : (∀ a ∈ l.modify i f, P a) ↔ ∀ a ∈ l, P a := by
  induction l generalizing i with
  | nil => simp
  | cons a l ih =>
    cases i with
    | zero => simp [hf]
    | succ i => simp [ih]

theorem Equation.holds_scale_iff {K : Type} [Field K] {k : K} (hk : k ≠ 0) (e : Equation K)
    (x : List K) :
    form (e.scale k).coefficients x = (e.scale k).rhs ↔ form e.coefficients x = e.rhs := by
  rw [scale, form_scale]
  exact mul_right_inj' hk

namespace StandardForm

/-- Row `i` of the matrix and entry `i` of the right-hand side multiplied by `k`. -/
def scaleRow {α : Type} [Mul α] (p : StandardForm α) (i : Nat) (k : α) : StandardForm α where
  objective := p.objective
  equations := p.equations.modify i (Equation.scale k)
  width := (forall_mem_modify (fun _ => by simp [Equation.scale]) _ _).2 p.width

theorem sameProgram_scaleRow {K : Type} [Field K] (p : StandardForm K) (i : Nat) {k : K}
    (hk : k ≠ 0) : p.SameProgram (p.scaleRow i k) where
  objective := rfl
  solves_iff x := by
    have hholds := forall_mem_modify (P := fun e => form e.coefficients x = e.rhs)
      (f := Equation.scale k) (fun e => e.holds_scale_iff hk x) p.equations i
    constructor
    · intro hx
      exact ⟨hx.length_eq, hholds.1 hx.holds⟩
    · intro hx
      exact ⟨hx.length_eq, hholds.2 hx.holds⟩

end StandardForm

namespace Solver

/-- For a large penalty, small tolerances and a high cap the answer is right, and an equation and
its positive multiples are interchangeable. -/
theorem solveStandard_scaleRow (f : Factorization) (p : StandardForm ℝ) (i : Nat) {k : ℝ}
    (hk : 0 < k) :
    ∃ penalty₀, ∀ penalty, penalty₀ ≤ penalty → ∃ tolerance₀ eps₀ cap₀,
      0 < tolerance₀ ∧ 0 < eps₀ ∧
      ∀ s : Solver ℝ, s.penalty = penalty → s.Within tolerance₀ eps₀ cap₀ →
        s.analyzer.MeasuresBy f →
        p.Answers (s.solveStandard p).value ∧
        (s.analyzer.analyze (p.scaleRow i k)).value.isFeasible =
          (s.analyzer.analyze p).value.isFeasible ∧
        (s.solveStandard (p.scaleRow i k)).value.status = (s.solveStandard p).value.status ∧
        (s.solveStandard (p.scaleRow i k)).value.objectiveValue =
          (s.solveStandard p).value.objectiveValue :=
  eventually_fine_iff.1 (eventually_agree f (p.sameProgram_scaleRow i hk.ne'))

/-- Minimize `x` subject to `a * x = b`. -/
def oneEquation (a b : ℝ) : StandardForm ℝ where
  objective := [1]
  equations := [⟨[a], b⟩]
  width := by simp

theorem scaleRow_oneEquation (a b k : ℝ) :
    (oneEquation a b).scaleRow 0 k = oneEquation (k * a) (k * b) :=
  rfl

theorem answers_oneEquation : (oneEquation 1 1).Answers (.optimal [1] 1 0) := by
  refine .optimal _ _ _ ⟨⟨[1], ⟨⟨rfl, ?_⟩, by simp⟩, by simp [oneEquation]⟩, ?_⟩
  · simp [oneEquation]
  · rintro _ ⟨x, hx, rfl⟩
    obtain ⟨u, rfl⟩ := List.length_eq_one_iff.1 hx.length_eq
    have hrow := hx.holds ⟨[1], 1⟩ (by simp [oneEquation])
    exact hrow.ge

theorem solveStandard_scaleRow_oneEquation : (0 : ℝ) < 1e-7 ∧ ∃ s : Solver ℝ,
    s.analyzer.MeasuresBy .gramSchmidt ∧
    (s.analyzer.analyze ((oneEquation 1 1).scaleRow 0 1e-7)).value.isFeasible =
      (s.analyzer.analyze (oneEquation 1 1)).value.isFeasible ∧
    (s.solveStandard (oneEquation 1 1)).value.status = .optimal ∧
    (s.solveStandard ((oneEquation 1 1).scaleRow 0 1e-7)).value.status = .optimal ∧
    (s.solveStandard ((oneEquation 1 1).scaleRow 0 1e-7)).value.objectiveValue = some 1 := by
  have hk : (0 : ℝ) < 1e-7 := by norm_num
  obtain ⟨penalty₀, h⟩ := solveStandard_scaleRow .gramSchmidt (oneEquation 1 1) 0 hk
  obtain ⟨tolerance₀, eps₀, cap₀, htolerance, heps, h⟩ := h penalty₀ le_rfl
  have hmeasures := Analyzer.measuresBy_measuring .gramSchmidt tolerance₀ true
  obtain ⟨hanswer, hverdict, hstatus, hvalue⟩ :=
    h ⟨penalty₀, eps₀, cap₀, .measuring .gramSchmidt tolerance₀ true⟩ rfl
      ⟨htolerance, le_rfl, heps, le_rfl, le_rfl⟩ hmeasures
  obtain ⟨hoptimal, hone⟩ := hanswer.unique answers_oneEquation
  exact ⟨hk, _, hmeasures, hverdict, hoptimal, hstatus.trans hoptimal, hvalue.trans hone⟩

/-! ## Settings that are not fine -/

theorem toLp_oneEquation (a b : ℝ) : (WithLp.toLp 2 fun i : Fin [[a]].length => [b].getD i 0) =
    EuclideanSpace.single 0 b := by
  ext i
  fin_cases i
  simp

theorem columnVector_oneEquation (a : ℝ) : columnVector [[a]] 0 = EuclideanSpace.single 0 a := by
  ext i
  fin_cases i
  simp [columnVector]

theorem norm_oneEquation (a b : ℝ) :
    ‖(EuclideanSpace.single 0 b : EuclideanSpace ℝ (Fin [[a]].length))‖ = |b| := by
  simp

theorem factors_oneEquation (a : ℝ) : Factorization.gramSchmidt.factors 1 [[a]] =
    [(|a|, (|a|)⁻¹ • EuclideanSpace.single 0 a)] := by
  have hfirst : gramSchmidt ℝ (fun j : Fin 1 => columnVector [[a]] j) 0 =
      EuclideanSpace.single 0 a := (gramSchmidt_bot ℝ _).trans (columnVector_oneEquation a)
  show List.ofFn (fun j : Fin 1 => (‖gramSchmidt ℝ (fun j : Fin 1 => columnVector [[a]] j) j‖,
    gramSchmidtNormed ℝ (fun j : Fin 1 => columnVector [[a]] j) j)) = _
  rw [List.ofFn_succ, List.ofFn_zero, gramSchmidtNormed, hfirst, norm_oneEquation]
  rfl

theorem distance_oneEquation_self {tolerance a : ℝ} (hpos : 0 < |a|) (ha : tolerance < |a|) :
    Factorization.gramSchmidt.distance tolerance 1 [[a]] [a] = 0 := by
  have hmem : (|a|)⁻¹ • EuclideanSpace.single 0 a ∈
      Factorization.gramSchmidt.space tolerance 1 [[a]] := by
    refine Submodule.subset_span ⟨|a|, by rwa [abs_abs], ?_⟩
    rw [factors_oneEquation]
    exact List.mem_cons_self
  have hscaled := Submodule.smul_mem _ |a| hmem
  rw [smul_inv_smul₀ hpos.ne', ← toLp_oneEquation] at hscaled
  exact Metric.infDist_zero_of_mem hscaled

theorem distance_oneEquation_zero (f : Factorization) {tolerance : ℝ} (h : 0 ≤ tolerance) (b : ℝ) :
    f.distance tolerance 1 [[0]] [b] = |b| := by
  have hcolumns : columnSpan 1 [[0]] = ⊥ := by
    rw [columnSpan, Submodule.span_eq_bot]
    rintro _ ⟨j, rfl⟩
    rw [Subsingleton.elim j 0]
    exact (columnVector_oneEquation 0).trans (by simp)
  have hspace := eq_bot_iff.2 (hcolumns ▸ f.space_le h 1 [[0]])
  rw [Factorization.distance, hspace, distanceFrom, toLp_oneEquation, Submodule.bot_coe,
    Metric.infDist_singleton, dist_zero_right]
  exact norm_oneEquation 0 b

theorem keptRows_oneEquation {s : Analyzer ℝ} {a : ℝ} (ha : s.tolerance < |a|) :
    s.keptRows [[a]] = [0] := by
  have hnorm : s.tolerance < Linear.norm [a] := by
    rw [Linear.norm, dot_eq_form]
    show _ < √_
    simpa [Real.sqrt_mul_self_eq_abs] using ha
  have hcandidates : s.candidates [[a]] = [([a], 0)] := by
    simp [Analyzer.candidates, prune, isSubstantial, ha.le]
  rw [Analyzer.keptRows, hcandidates, independentRows, independentFrom]
  show List.map Prod.snd (if s.tolerance < Linear.norm [a] then _ else _) = _
  rw [if_pos hnorm]
  rfl

theorem isFeasible_oneEquation_zero {f : Factorization} {s : Analyzer ℝ} (hf : s.MeasuresBy f)
    (h : 0 ≤ s.tolerance) (b : ℝ) :
    (s.analyze (oneEquation 0 b)).value.isFeasible = true ↔ |b| ≤ s.tolerance := by
  have hdistance : (s.measure 1 [[0]] [b]).distance = |b| :=
    (hf (oneEquation 0 b)).trans (distance_oneEquation_zero f h b)
  rw [Analyzer.value_analyze]
  show (if s.tolerance < (s.measure 1 [[0]] [b]).distance then _ else _ : Feasibility ℝ).isFeasible
    = true ↔ _
  rw [hdistance, ← not_lt]
  split
  · exact iff_of_false Bool.false_ne_true (not_not.2 ‹_›)
  · exact iff_of_true rfl ‹_›

/-- No positive tolerance is small enough for all problems and factors. -/
theorem exists_isFeasible_ne {f : Factorization} {s : Analyzer ℝ} (hf : s.MeasuresBy f)
    (hpos : 0 < s.tolerance) : ∃ p : StandardForm ℝ, ∃ i k, 0 < k ∧
      (s.analyze (p.scaleRow i k)).value.isFeasible ≠ (s.analyze p).value.isFeasible := by
  have hresidual := fun b => isFeasible_oneEquation_zero hf hpos.le b
  have hscaled : (oneEquation 0 (2 * s.tolerance)).scaleRow 0 (1 / 2) =
      oneEquation 0 s.tolerance := by
    rw [scaleRow_oneEquation, mul_zero]
    congr 1
    ring
  refine ⟨oneEquation 0 (2 * s.tolerance), 0, 1 / 2, by norm_num, ?_⟩
  rw [hscaled, (hresidual _).2 (abs_of_pos hpos).le, Ne, eq_comm, hresidual,
    abs_of_pos (by linarith)]
  linarith

/-- Real arithmetic with the settings that the program starts with. -/
noncomputable def preset : Solver ℝ where
  penalty := 1000000
  pivotTolerance := 1e-10
  maxIterations := defaultMaxIterations
  analyzer := .measuring .gramSchmidt 1e-8 true

theorem analyze_oneEquation {a : ℝ} (ha : 1e-8 < |a|) :
    (preset.analyzer.analyze (oneEquation a a)).value = .feasible (oneEquation a a) [0] := by
  have hpos : 0 < |a| := lt_trans (by norm_num) ha
  have hkept : preset.analyzer.keptRows (oneEquation a a).rows = [0] :=
    keptRows_oneEquation ha
  rw [Analyzer.value_analyze, hkept, if_neg]
  · rfl
  · show ¬ 1e-8 < Factorization.gramSchmidt.distance 1e-8 1 [[a]] [a]
    rw [distance_oneEquation_self hpos ha]
    norm_num

section OneEquation

variable {a b : ℝ} (penalty : ℝ)

theorem entry_oneEquation (hb : 0 ≤ b) :
    ((oneEquation a b).startingTableau penalty).entry 0 0 = 1 - penalty * a ∧
    ((oneEquation a b).startingTableau penalty).entry 0 1 = 0 ∧
    ((oneEquation a b).startingTableau penalty).entry 1 0 = a ∧
    ((oneEquation a b).startingTableau penalty).entry 1 1 = 1 ∧
    ((oneEquation a b).startingTableau penalty).rhs 1 = b := by
  simp [StandardForm.startingTableau, Tableau.rhs, Tableau.rhsColumn, Tableau.entry_ofFn,
    StandardForm.startingCost, StandardForm.startingEntry, oneEquation, Equation.oriented,
    Equation.orientation, StandardForm.numRows, StandardForm.numColumns, not_lt.2 hb]

variable {penalty} {eps : ℝ} (heps : 0 ≤ eps) (hb : 0 ≤ b)

include heps hb

theorem solveFrom_oneEquation_start (hcost : -eps ≤ 1 - penalty * a) (cap : Nat) :
    ((oneEquation a b).startingTableau penalty).solveFrom eps cap =
      ⟨.optimal, .start ((oneEquation a b).startingTableau penalty), []⟩ := by
  obtain ⟨h00, h01, _⟩ := entry_oneEquation (a := a) penalty hb
  have hvariables : ((oneEquation a b).startingTableau penalty).numVariables = 2 := rfl
  refine Dictionary.run_optimal ?_ _ _
  simp [Dictionary.choose, Dictionary.start, Tableau.entering?, hvariables, h00, h01,
    List.range_succ, hcost, heps]

theorem solveFrom_oneEquation_exchange (hcost : 1 - penalty * a < -eps) (ha : eps < a) (cap : Nat) :
    (((oneEquation a b).startingTableau penalty).solveFrom eps (cap + 1)).stop = .optimal ∧
    (((oneEquation a b).startingTableau penalty).solveFrom eps (cap + 1)).final.basis = [0] := by
  obtain ⟨h00, h01, h10, h11, _⟩ := entry_oneEquation (a := a) penalty hb
  generalize ht : (oneEquation a b).startingTableau penalty = t at h00 h01 h10 h11 ⊢
  have hm : t.numRows = 2 := by rw [← ht]; rfl
  have hn : t.numColumns = 3 := by rw [← ht]; rfl
  have hconstraints : t.numConstraints = 1 := by rw [Tableau.numConstraints, hm]
  have hvariables : t.numVariables = 2 := by rw [Tableau.numVariables, hn]
  have hpivot : (t.pivot 1 0).numVariables = 2 := hvariables
  have hpos : 0 < a := heps.trans_lt ha
  have hfirst : (Dictionary.start t).choose eps = .exchange 1 0 := by
    simp [Dictionary.choose, Dictionary.start, Tableau.entering?, Tableau.leaving?,
      Tableau.ratios, hvariables, hconstraints, h00, h10, hcost, not_le.2 ha, List.range_succ]
  have hsecond : ((Dictionary.start t).exchange 1 0).choose eps = .optimal := by
    have hlast : ¬ eps < (1 - penalty * a) * a⁻¹ := by
      refine not_lt.2 ((mul_nonpos_of_nonpos_of_nonneg ?_ (inv_nonneg.2 hpos.le)).trans heps)
      linarith
    simp [Dictionary.choose, Dictionary.exchange, Dictionary.start, Tableau.entering?, hpivot,
      Tableau.entry_pivot_eq, hm, hn, h00, h01, h10, h11, List.range_succ, hpos.ne', heps, hlast]
  rw [Tableau.solveFrom, Dictionary.run_succ hfirst, Dictionary.next_of_choose hfirst,
    Dictionary.run_optimal hsecond]
  refine ⟨rfl, ?_⟩
  simp [Dictionary.exchange, Dictionary.start, Tableau.numStructural, hvariables, hconstraints]

end OneEquation

theorem rhsScale_oneEquation {a b : ℝ} (hb : 0 ≤ b) : rhsScale (oneEquation a b) ≤ 1 + b := by
  show 1 + (if 0 < |b| then |b| else 0) ≤ 1 + b
  rw [abs_of_nonneg hb]
  split <;> linarith

theorem status_oneEquation_infeasible :
    (preset.solveStandard (oneEquation 1e-7 1e-7)).value.status = .infeasible := by
  have hb : (0 : ℝ) ≤ 1e-7 := by norm_num
  have hrun : preset.outcome (oneEquation 1e-7 1e-7) =
      ⟨.optimal, .start ((oneEquation 1e-7 1e-7).startingTableau 1000000), []⟩ :=
    solveFrom_oneEquation_start (by norm_num [preset]) hb (by norm_num [preset]) _
  rw [value_of_feasible (analyze_oneEquation (by norm_num [abs_of_pos])), hrun]
  refine status_conclude_of_residual rfl ?_
  rw [residualArtificial?, Ne, Option.map_eq_none_iff, List.find?_eq_none]
  intro hsmall
  refine hsmall (1, 0) (List.mem_singleton.2 rfl) (decide_eq_true ⟨le_rfl, ?_⟩)
  obtain ⟨_, _, _, _, hrhs⟩ := entry_oneEquation (a := 1e-7) 1000000 hb
  have hscale := rhsScale_oneEquation (a := 1e-7) hb
  show 1e-8 * rhsScale (oneEquation 1e-7 1e-7) <
    ((oneEquation 1e-7 1e-7).startingTableau 1000000).rhs 1
  rw [hrhs]
  linarith

noncomputable def withPivotTolerance (s : Solver ℝ) (eps : ℝ) : Solver ℝ :=
  { s with pivotTolerance := eps }

theorem status_withPivotTolerance {eps : ℝ} (heps : 0 ≤ eps) (hlt : eps < 1) :
    ((preset.withPivotTolerance eps).solveStandard (oneEquation 1 1)).value.status = .optimal := by
  have hpenalty : (1 : ℝ) - 1000000 * 1 < -eps := by linarith
  obtain ⟨hstop, hbasis⟩ : ((preset.withPivotTolerance eps).outcome (oneEquation 1 1)).stop =
        .optimal ∧
      ((preset.withPivotTolerance eps).outcome (oneEquation 1 1)).final.basis = [0] :=
    solveFrom_oneEquation_exchange heps zero_le_one hpenalty hlt 9999
  have hanalyze : ((preset.withPivotTolerance eps).analyzer.analyze (oneEquation 1 1)).value =
      .feasible (oneEquation 1 1) [0] := analyze_oneEquation (by norm_num)
  rw [value_of_feasible hanalyze]
  refine status_conclude_of_none hstop ?_
  rw [residualArtificial?, hbasis]
  rfl

theorem status_oneEquation_optimal :
    (preset.solveStandard (oneEquation 1 1)).value.status = .optimal := by
  have heps : (0 : ℝ) ≤ 1e-10 := by norm_num
  exact status_withPivotTolerance heps (by norm_num)

/-- With the settings that the program starts with a feasible equation is called infeasible once it
is scaled down, as the penalty loses against the objective, and an equation without a solution is
called feasible, as its residual falls below the tolerance. -/
theorem preset_scaleRow : preset.analyzer.MeasuresBy .gramSchmidt ∧
    (0 : ℝ) < 1e-7 ∧
    (preset.solveStandard (oneEquation 1 1)).value.status = .optimal ∧
    (preset.solveStandard ((oneEquation 1 1).scaleRow 0 1e-7)).value.status = .infeasible ∧
    (0 : ℝ) < 1e-9 ∧
    (preset.analyzer.analyze (oneEquation 0 1)).value.isFeasible = false ∧
    (preset.analyzer.analyze ((oneEquation 0 1).scaleRow 0 1e-9)).value.isFeasible = true := by
  have hmeasures := Analyzer.measuresBy_measuring .gramSchmidt 1e-8 true
  have hresidual : ∀ b, (preset.analyzer.analyze (oneEquation 0 b)).value.isFeasible = true ↔
      |b| ≤ 1e-8 :=
    isFeasible_oneEquation_zero hmeasures (by norm_num [preset, Analyzer.measuring])
  refine ⟨hmeasures, by norm_num, status_oneEquation_optimal, ?_, by norm_num, ?_, ?_⟩
  · rw [scaleRow_oneEquation, mul_one]
    exact status_oneEquation_infeasible
  · rw [Bool.eq_false_iff, Ne, hresidual]
    norm_num
  · rw [scaleRow_oneEquation, mul_zero, mul_one, hresidual]
    norm_num

end Solver
end PenaltySimplex
