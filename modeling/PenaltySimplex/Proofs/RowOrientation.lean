import PenaltySimplex.Proofs.ExactSolver
import PenaltySimplex.Proofs.MatrixForm
import PenaltySimplex.Proofs.Verdict

/-!
# PenaltySimplex.Proofs.RowOrientation

An equation and its negative are interchangeable if the right-hand side is not zero
(`Solver.solveStandard_negateRows`). Nothing is asked of the analyzer but that its measure of
consistency does not see the difference; the tolerances may be any numbers.

* The selection of rows compares magnitudes and takes components away, and neither depends on signs
  (`prune_signed`, `independentFrom_signed`). The vectors that it orthogonalizes against may be
  negated too.
* The starting tableau is that of the oriented problem (`startingTableau_oriented`), which
  an equation and its negative share.
-/

namespace PenaltySimplex

open Linear

/-! ## Row selection up to signs -/

namespace Linear

/-- The same vector or its negative. -/
def UpToSign (u v : List ℝ) : Prop :=
  ∃ σ : ℝ, |σ| = 1 ∧ v = u.map (σ * ·)

/-- A numbered row times the sign of its number. -/
def signed (σ : Nat → ℝ) (q : List ℝ × Nat) : List ℝ × Nat :=
  (q.1.map (σ q.2 * ·), q.2)

section Sign

variable {σ τ : ℝ} (hσ : |σ| = 1) (hτ : |τ| = 1)

theorem dot_sign (u v : List ℝ) : dot (u.map (σ * ·)) (v.map (τ * ·)) = σ * τ * dot u v := by
  rw [dot_eq_form, dot_eq_form, form_scale, form_comm, form_scale, form_comm, mul_assoc]

include hσ

theorem sign_mul_self : σ * σ = 1 := by
  rw [← abs_mul_abs_self, hσ, one_mul]

theorem isSubstantial_sign (tolerance : ℝ) (row : List ℝ) :
    isSubstantial tolerance (row.map (σ * ·)) = isSubstantial tolerance row := by
  simp only [isSubstantial, List.any_map, Function.comp_def, Scalar.abs_eq, abs_mul, hσ, one_mul]

theorem anchor?_sign (tolerance : ℝ) (row : List ℝ) :
    anchor? tolerance (row.map (σ * ·)) = anchor? tolerance row := by
  simp only [anchor?, List.findIdx?_map, Function.comp_def, Scalar.abs_eq, abs_mul, hσ, one_mul]

theorem norm_sign (v : List ℝ) : Linear.norm (v.map (σ * ·)) = Linear.norm v := by
  rw [Linear.norm, dot_sign, sign_mul_self hσ, one_mul, Linear.norm]

include hτ

theorem isNearMultiple_sign (tolerance : ℝ) (earlier later : List ℝ) :
    isNearMultiple tolerance (earlier.map (σ * ·)) (later.map (τ * ·)) =
      isNearMultiple tolerance earlier later := by
  have hzero : σ ≠ 0 := left_ne_zero_of_mul_eq_one (sign_mul_self hσ)
  rw [isNearMultiple, isNearMultiple, anchor?_sign hσ]
  cases anchor? tolerance earlier with
  | none => rfl
  | some k =>
    have hterm : ∀ x y : ℝ,
        |τ * x - τ * later.getD k 0 / (σ * earlier.getD k 0) * (σ * y)| =
          |x - later.getD k 0 / earlier.getD k 0 * y| := by
      intro x y
      rw [mul_div_mul_comm]
      generalize later.getD k 0 / earlier.getD k 0 = ratio
      have hfactor : τ * x - τ / σ * ratio * (σ * y) = τ * (x - ratio * y) := by
        field_simp
      rw [hfactor, abs_mul, hτ, one_mul]
    simp only [getD_map_of_zero (mul_zero _), List.zip_map, List.all_map, Function.comp_def,
      Prod.map, Scalar.abs_eq, hterm]

omit hτ in
theorem combine_sign (e v : List ℝ) :
    combine (-(dot (e.map (σ * ·)) (v.map (τ * ·)))) (e.map (σ * ·)) 1 (v.map (τ * ·)) =
      (combine (-(dot e v)) e 1 v).map (τ * ·) := by
  have hsquare := sign_mul_self hσ
  rw [dot_sign, combine, combine, List.zipWith_map, List.map_zipWith]
  congr 1
  funext x y
  linear_combination (-(τ * dot e v * x)) * hsquare

end Sign

theorem orthogonalize_sign {basis basis' : List (List ℝ)} (h : List.Forall₂ UpToSign basis basis')
    (τ : ℝ) (v : List ℝ) :
    orthogonalize basis' (v.map (τ * ·)) = (orthogonalize basis v).map (τ * ·) := by
  induction h generalizing v with
  | nil => rfl
  | cons he _ ih =>
    obtain ⟨σ, hσ, rfl⟩ := he
    rw [orthogonalize_cons, orthogonalize_cons, combine_sign hσ, ih]

section Signed

variable {σ : Nat → ℝ} (hσ : ∀ i, |σ i| = 1)

include hσ

theorem prune_signed (tolerance : ℝ) (rows : List (List ℝ × Nat)) :
    prune tolerance (rows.map (signed σ)) = (prune tolerance rows).map (signed σ) := by
  simp only [prune, List.filter_map, List.any_map, Function.comp_def, signed,
    isSubstantial_sign (hσ _), isNearMultiple_sign (hσ _) (hσ _)]
  rfl

/-- Rows up to sign, measured against vectors up to sign. -/
theorem independentFrom_signed (tolerance : ℝ) {basis basis' : List (List ℝ)}
    (h : List.Forall₂ UpToSign basis basis') (rows : List (List ℝ × Nat)) :
    independentFrom tolerance basis' (rows.map (signed σ)) =
      (independentFrom tolerance basis rows).map (signed σ) := by
  induction rows generalizing basis basis' with
  | nil => rfl
  | cons q rows ih =>
    obtain ⟨row, i⟩ := q
    rw [List.map_cons, signed, independentFrom, independentFrom]
    simp only [orthogonalize_sign h, norm_sign (hσ i)]
    generalize orthogonalize basis (orthogonalize basis row) = v
    split
    · have hnew : UpToSign (divide v (Linear.norm v))
          (divide (v.map (σ i * ·)) (Linear.norm v)) := by
        refine ⟨σ i, hσ i, ?_⟩
        simp only [divide, List.map_map, Function.comp_def, mul_div_assoc]
      rw [ih (List.rel_append h (.cons hnew .nil)), List.map_cons]
      rfl
    · exact ih h

end Signed

end Linear

theorem Analyzer.keptRows_signed (a : Analyzer ℝ) {σ : Nat → ℝ} (hσ : ∀ i, |σ i| = 1)
    {rows rows' : List (List ℝ)} (h : rows'.zipIdx = rows.zipIdx.map (signed σ)) :
    a.keptRows rows' = a.keptRows rows := by
  have hcandidates : a.candidates rows' = (a.candidates rows).map (signed σ) := by
    rw [candidates, candidates, h, prune_signed hσ]
    split <;> rfl
  rw [keptRows, keptRows, hcandidates, independentRows, independentFrom_signed hσ _ .nil,
    List.map_map]
  rfl

/-! ## Negated equations -/

/-- Both sides negated. -/
def Equation.negate {α : Type} [Neg α] (e : Equation α) : Equation α where
  coefficients := e.coefficients.map fun a => -a
  rhs := -e.rhs

namespace StandardForm

/-- The rows of the matrix with these numbers negated, and their right-hand sides. -/
def negateRows {α : Type} [Neg α] (p : StandardForm α) (rows : Finset Nat) : StandardForm α where
  objective := p.objective
  equations := p.equations.mapIdx fun i e => if i ∈ rows then e.negate else e
  width := by
    intro f hf
    obtain ⟨i, hi, rfl⟩ := List.mem_mapIdx.1 hf
    split
    · rw [Equation.negate, List.length_map]
      exact p.width _ (List.getElem_mem hi)
    · exact p.width _ (List.getElem_mem hi)

theorem getElem?_negateRows {α : Type} [Neg α] (p : StandardForm α) (rows : Finset Nat) (i : Nat) :
    (p.negateRows rows).equations[i]? =
      p.equations[i]?.map fun e => if i ∈ rows then e.negate else e :=
  List.getElem?_mapIdx

/-- One equation after the other. -/
theorem negateRows_insert {α : Type} [Neg α] (p : StandardForm α) {i : Nat} {rows : Finset Nat}
    (h : i ∉ rows) : p.negateRows (insert i rows) = (p.negateRows rows).negateRows {i} := by
  refine ext_of_eq rfl (List.ext_getElem? fun k => ?_)
  rw [getElem?_negateRows, getElem?_negateRows, getElem?_negateRows, Option.map_map]
  congr 1
  funext e
  rw [Function.comp_apply]
  by_cases hk : k = i
  · subst hk
    rw [if_pos (Finset.mem_insert_self _ _), if_neg h, if_pos (Finset.mem_singleton_self _)]
  · rw [if_neg (c := k ∈ ({i} : Finset Nat)) (by simpa using hk)]
    exact if_congr (by simp [hk]) rfl rfl

theorem negateRows_empty {α : Type} [Neg α] (p : StandardForm α) : p.negateRows ∅ = p := by
  refine ext_of_eq rfl (List.ext_getElem? fun k => ?_)
  rw [getElem?_negateRows]
  simp

theorem zipIdx_negateRows (p : StandardForm ℝ) (rows : Finset Nat) :
    (p.negateRows rows).rows.zipIdx =
      p.rows.zipIdx.map (signed fun i => if i ∈ rows then -1 else 1) := by
  refine List.ext_getElem? fun i => ?_
  rw [List.getElem?_map, List.getElem?_zipIdx, List.getElem?_zipIdx, StandardForm.rows,
    StandardForm.rows, List.getElem?_map, List.getElem?_map, getElem?_negateRows]
  cases p.equations[i]? with
  | none => rfl
  | some e =>
    by_cases hi : i ∈ rows <;> simp [signed, hi, Equation.negate]

end StandardForm

/-- Negating an equation leaves the measured distance as it is. -/
def Analyzer.IgnoresOrientation (a : Analyzer ℝ) : Prop :=
  ∀ (p : StandardForm ℝ) (i : Nat),
    (a.measure p.numColumns (p.negateRows {i}).rows (p.negateRows {i}).rhs).distance =
      (a.measure p.numColumns p.rows p.rhs).distance

section NegateRows

variable {a : Analyzer ℝ} (ha : a.IgnoresOrientation)

include ha

theorem Analyzer.IgnoresOrientation.distance_negateRows (p : StandardForm ℝ) (rows : Finset Nat) :
    (a.measure p.numColumns (p.negateRows rows).rows (p.negateRows rows).rhs).distance =
      (a.measure p.numColumns p.rows p.rhs).distance := by
  induction rows using Finset.induction_on with
  | empty => rw [p.negateRows_empty]
  | insert i rows hi ih =>
    rw [p.negateRows_insert hi, ← ih]
    exact ha (p.negateRows rows) i

omit ha in
theorem Analyzer.keptRows_negateRows (a : Analyzer ℝ) (p : StandardForm ℝ) (rows : Finset Nat) :
    a.keptRows (p.negateRows rows).rows = a.keptRows p.rows := by
  refine a.keptRows_signed (fun i => ?_) (p.zipIdx_negateRows rows)
  split
  · rw [abs_neg, abs_one]
  · exact abs_one

end NegateRows

/-! ## The exact distance does not see the orientation -/

namespace Linear

/-- Coordinate `k` negated; the two dimensions are the same number. -/
noncomputable def negateCoordinate {m n : Nat} (h : m = n) (k : Nat) :
    EuclideanSpace ℝ (Fin m) ≃ₗᵢ[ℝ] EuclideanSpace ℝ (Fin n) :=
  (LinearIsometryEquiv.piLpCongrLeft _ ℝ ℝ (finCongr h)).trans
    (LinearIsometryEquiv.piLpCongrRight _ fun i => if i.val = k then .neg ℝ else .refl ℝ ℝ)

theorem negateCoordinate_toLp {m n : Nat} (h : m = n) (k : Nat) (f : Nat → ℝ) :
    negateCoordinate h k (WithLp.toLp 2 fun i : Fin m => f i) =
      WithLp.toLp 2 fun i : Fin n => if i.val = k then -f i else f i := by
  subst h
  ext i
  by_cases hi : i.val = k <;> simp [negateCoordinate, hi, LinearIsometryEquiv.piLpCongrRight]

theorem columnVector_eq (rows : List (List ℝ)) (j : Nat) :
    columnVector rows j = WithLp.toLp 2 fun i : Fin rows.length => (rows.getD i []).getD j 0 := by
  ext i
  show rows[i.val].getD j 0 = (rows.getD i.val []).getD j 0
  rw [List.getD_eq_getElem rows [] i.isLt]

end Linear

theorem Equation.getD_negate (e : Equation ℝ) (j : Nat) :
    e.negate.coefficients.getD j 0 = -e.coefficients.getD j 0 :=
  getD_map_of_zero neg_zero e.coefficients j

namespace StandardForm

variable (p : StandardForm ℝ) (k : Nat)

theorem getD_rows_negateRow (i j : Nat) : ((p.negateRows {k}).rows.getD i []).getD j 0 =
    if i = k then -(p.rows.getD i []).getD j 0 else (p.rows.getD i []).getD j 0 := by
  simp only [List.getD_eq_getElem?_getD, rows, List.getElem?_map, getElem?_negateRows,
    Finset.mem_singleton]
  cases p.equations[i]? with
  | none => simp
  | some e =>
    by_cases hi : i = k
    · simpa [hi] using e.getD_negate j
    · simp [hi]

theorem getD_rhs_negateRow (i : Nat) : (p.negateRows {k}).rhs.getD i 0 =
    if i = k then -p.rhs.getD i 0 else p.rhs.getD i 0 := by
  simp only [List.getD_eq_getElem?_getD, rhs, List.getElem?_map, getElem?_negateRows,
    Finset.mem_singleton]
  cases p.equations[i]? with
  | none => simp
  | some e => by_cases hi : i = k <;> simp [hi, Equation.negate]

theorem columnSpan_negateRow (h : p.rows.length = (p.negateRows {k}).rows.length) :
    (columnSpan p.numColumns (p.negateRows {k}).rows : Set _) =
      negateCoordinate h k '' columnSpan p.numColumns p.rows := by
  have hcolumn : ∀ j, columnVector (p.negateRows {k}).rows j =
      negateCoordinate h k (columnVector p.rows j) := by
    intro j
    rw [columnVector_eq, columnVector_eq,
      negateCoordinate_toLp h k fun i => (p.rows.getD i []).getD j 0]
    simp only [p.getD_rows_negateRow k]
  have hmap := Submodule.map_span (negateCoordinate h k).toLinearEquiv.toLinearMap
    (Set.range fun j : Fin p.numColumns => columnVector p.rows j)
  rw [← Set.range_comp] at hmap
  rw [columnSpan, funext fun j : Fin p.numColumns => hcolumn j]
  exact congrArg _ hmap.symm

/-- Negating one coordinate everywhere is an isometry, and it takes columns to columns. -/
theorem columnDistance_negateRow :
    columnDistance p.numColumns (p.negateRows {k}).rows (p.negateRows {k}).rhs =
      columnDistance p.numColumns p.rows p.rhs := by
  have hlength : p.rows.length = (p.negateRows {k}).rows.length := by
    rw [length_rows, length_rows, numRows, numRows, negateRows, List.length_mapIdx]
  rw [columnDistance, p.columnSpan_negateRow k hlength,
    funext fun i : Fin (p.negateRows {k}).rows.length => p.getD_rhs_negateRow k i,
    ← negateCoordinate_toLp hlength k fun i => p.rhs.getD i 0,
    Metric.infDist_image (negateCoordinate hlength k).isometry]
  rfl

end StandardForm

theorem Analyzer.IsExact.ignoresOrientation {a : Analyzer ℝ} (h : a.IsExact) :
    a.IgnoresOrientation := by
  intro p i
  have hnegated := h.distance (p.negateRows {i})
  rw [h.distance, ← p.columnDistance_negateRow i]
  exact hnegated

/-! ## Oriented problems -/

namespace Equation

theorem oriented_negate {e : Equation ℝ} (h : e.rhs ≠ 0) : e.negate.oriented = e.oriented := by
  have horientation : e.negate.orientation = -e.orientation := by
    rcases lt_or_gt_of_ne h with hneg | hpos
    · have hnegate : ¬ e.negate.rhs < 0 := not_lt.2 (neg_nonneg.2 hneg.le)
      rw [orientation, orientation, if_neg hnegate, if_pos hneg, neg_neg]
    · have hnegate : e.negate.rhs < 0 := neg_lt_zero.2 hpos
      rw [orientation, orientation, if_pos hnegate, if_neg (not_lt.2 hpos.le)]
  rw [oriented, oriented, horientation, negate]
  simp only [List.map_map, Function.comp_def, neg_mul_neg]

theorem oriented_oriented (e : Equation ℝ) : e.oriented.oriented = e.oriented := by
  have horientation : e.oriented.orientation = 1 := by
    refine if_neg (not_lt.2 ?_)
    exact (abs_nonneg e.rhs).trans_eq e.orientation_mul_rhs.symm
  rw [oriented, horientation]
  simp only [one_mul, List.map_id']

end Equation

namespace StandardForm

/-- Every equation oriented. -/
def oriented {α : Type} [Scalar α] (p : StandardForm α) : StandardForm α where
  objective := p.objective
  equations := p.equations.map Equation.oriented
  width := by
    intro f hf
    obtain ⟨e, he, rfl⟩ := List.mem_map.1 hf
    rw [Equation.oriented, List.length_map]
    exact p.width e he

variable {p : StandardForm ℝ}

theorem map_abs_rhs_oriented (p : StandardForm ℝ) :
    p.oriented.rhs.map Scalar.abs = p.rhs.map Scalar.abs := by
  rw [rhs, rhs, oriented, List.map_map, List.map_map, List.map_map]
  refine List.map_congr_left fun e _ => ?_
  show |e.orientation * e.rhs| = |e.rhs|
  rw [e.orientation_mul_rhs, abs_abs]

theorem startingTableau_oriented (penalty : ℝ) :
    p.oriented.startingTableau penalty = p.startingTableau penalty := by
  have hrows : p.oriented.numRows = p.numRows := List.length_map _
  have hcost : ∀ j, p.oriented.startingCost penalty j = p.startingCost penalty j := by
    intro j
    simp only [startingCost, oriented, List.map_map, Function.comp_def, Equation.oriented_oriented]
  have hentry : ∀ i j, p.oriented.startingEntry i j = p.startingEntry i j := by
    intro i j
    have hequation : p.oriented.equations[i]? = p.equations[i]?.map Equation.oriented :=
      List.getElem?_map
    rw [startingEntry, startingEntry, hequation, hrows]
    cases p.equations[i]? with
    | none => rfl
    | some e =>
      simp only [Option.map_some, Equation.oriented_oriented]
      rfl
  have hcolumns : p.oriented.numColumns = p.numColumns := rfl
  simp only [startingTableau, hrows, hcolumns, hcost, hentry, map_abs_rhs_oriented]

theorem oriented_selectRows (indices : List Nat) :
    (p.selectRows indices).oriented = p.oriented.selectRows indices := by
  refine ext_of_eq rfl ?_
  simp only [oriented, selectRows, List.map_filterMap, List.getElem?_map]

theorem oriented_negateRows {rows : Finset Nat} (hrows : ∀ i ∈ rows, p.rhs.getD i 0 ≠ 0) :
    (p.negateRows rows).oriented = p.oriented := by
  refine ext_of_eq rfl (List.ext_getElem? fun i => ?_)
  rw [oriented, oriented, List.getElem?_map, List.getElem?_map, getElem?_negateRows,
    Option.map_map]
  cases he : p.equations[i]? with
  | none => rfl
  | some e =>
    rw [Option.map_some, Option.map_some, Function.comp_apply]
    by_cases hi : i ∈ rows
    · have hrhs := hrows i hi
      rw [rhs, List.getD_eq_getElem?_getD, List.getElem?_map, he] at hrhs
      rw [if_pos hi, Equation.oriented_negate hrhs]
    · rw [if_neg hi]

end StandardForm

namespace Solver

variable {s : Solver ℝ} {p : StandardForm ℝ}

theorem conclude_oriented (o : Outcome ℝ) : s.conclude p.oriented o = s.conclude p o := by
  rw [conclude, conclude, rhsScale, rhsScale, p.map_abs_rhs_oriented]
  rfl

theorem conclude_outcome_oriented (s : Solver ℝ) (p : StandardForm ℝ) :
    s.conclude p.oriented (s.outcome p.oriented) = s.conclude p (s.outcome p) := by
  rw [conclude_oriented, outcome, outcome, p.startingTableau_oriented]

/-- Negating equations whose right-hand sides are not zero changes neither the verdict on the
equations nor the rows kept, and the starting tableau and the answer are the same. -/
theorem solveStandard_negateRows (hs : s.analyzer.IgnoresOrientation) {rows : Finset Nat}
    (hrows : ∀ i ∈ rows, p.rhs.getD i 0 ≠ 0) :
    ((∃ r, (s.analyzer.analyze p).value = .infeasible r ∧
        (s.analyzer.analyze (p.negateRows rows)).value = .infeasible r) ∨
      ∃ q q' kept, (s.analyzer.analyze p).value = .feasible q kept ∧
        (s.analyzer.analyze (p.negateRows rows)).value = .feasible q' kept ∧
        q'.startingTableau s.penalty = q.startingTableau s.penalty) ∧
    (s.solveStandard (p.negateRows rows)).value = (s.solveStandard p).value := by
  have hdistance := hs.distance_negateRows p rows
  have hanalyze := s.analyzer.value_analyze (p.negateRows rows)
  have hcolumns : (p.negateRows rows).numColumns = p.numColumns := rfl
  rw [hcolumns, hdistance, s.analyzer.keptRows_negateRows] at hanalyze
  by_cases hfar : s.analyzer.tolerance < (s.analyzer.measure p.numColumns p.rows p.rhs).distance
  · have hinfeasible := s.analyzer.value_analyze p
    rw [if_pos hfar] at hanalyze hinfeasible
    refine ⟨.inl ⟨_, hinfeasible, hanalyze⟩, ?_⟩
    rw [value_of_infeasible hinfeasible, value_of_infeasible hanalyze]
  · have hfeasible := s.analyzer.value_analyze p
    rw [if_neg hfar] at hanalyze hfeasible
    have horiented : ((p.negateRows rows).selectRows (s.analyzer.keptRows p.rows)).oriented =
        (p.selectRows (s.analyzer.keptRows p.rows)).oriented := by
      rw [StandardForm.oriented_selectRows, StandardForm.oriented_selectRows,
        StandardForm.oriented_negateRows hrows]
    refine ⟨.inr ⟨_, _, _, hfeasible, hanalyze, ?_⟩, ?_⟩
    · rw [← StandardForm.startingTableau_oriented, horiented, StandardForm.startingTableau_oriented]
    · rw [value_of_feasible hfeasible, value_of_feasible hanalyze, ← conclude_outcome_oriented,
        horiented, conclude_outcome_oriented]

/-- The only equation, whose right-hand side is then negative. -/
theorem solveStandard_negateRows_only :
    (exact 1 1 true).analyzer.IgnoresOrientation ∧ cappedForm.rhs.getD 0 0 ≠ 0 ∧
    ∃ k, ((exact 1 1 true).solveStandard ⟨[-1, 0], [⟨[-1, -1], -1⟩], by simp⟩).value =
      .optimal [1, 0] (-1) k := by
  have hanalyzer := (isExact_exact 1 1 true).analyzer.ignoresOrientation
  have hrhs : cappedForm.rhs.getD 0 0 ≠ 0 := one_ne_zero
  have hrows : ∀ i ∈ ({0} : Finset Nat), cappedForm.rhs.getD i 0 ≠ 0 := by
    intro i hi
    rwa [Finset.mem_singleton.1 hi]
  have hvalue := (solveStandard_negateRows hanalyzer hrows).2
  obtain ⟨k, hk⟩ := solveStandard_capped
  refine ⟨hanalyzer, hrhs, k, ?_⟩
  rw [← hk, ← hvalue]
  refine congrArg (fun p => ((exact 1 1 true).solveStandard p).value)
    (StandardForm.ext_of_eq rfl ?_)
  simp [StandardForm.negateRows, Equation.negate, cappedForm]

end Solver
end PenaltySimplex
