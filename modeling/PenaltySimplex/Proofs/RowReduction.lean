import PenaltySimplex.Proofs.ColumnDistance

/-!
# PenaltySimplex.Proofs.RowReduction

With exact arithmetic and tolerance zero, leaving rows out changes no solution of equations that
have one.

A direction on which every row kept vanishes is one on which every row vanishes
(`form_eq_zero_of_independentRows`): a row that is left out has been reduced to zero by vectors on
which the direction vanishes already. Pruning leaves out empty rows only (`prune_zero`). The
difference of two solutions of the rows kept is such a direction (`StandardForm.solves_reduce_iff`).
-/

namespace PenaltySimplex
namespace Linear

/-! ## Orthogonalization -/

theorem length_orthogonalize {n : Nat} {basis : List (List ℝ)}
    (hbasis : ∀ e ∈ basis, e.length = n) {v : List ℝ} (hv : v.length = n) :
    (orthogonalize basis v).length = n := by
  induction basis generalizing v with
  | nil => exact hv
  | cons e basis ih =>
    obtain ⟨he, hbasis⟩ := List.forall_mem_cons.1 hbasis
    exact ih hbasis (length_combine_eq he hv)

theorem form_orthogonalize {n : Nat} {basis : List (List ℝ)} {y : List ℝ}
    (hbasis : ∀ e ∈ basis, e.length = n) (hy : ∀ e ∈ basis, form e y = 0) {v : List ℝ}
    (hv : v.length = n) : form (orthogonalize basis v) y = form v y := by
  induction basis generalizing v with
  | nil => rfl
  | cons e basis ih =>
    obtain ⟨he, hbasis⟩ := List.forall_mem_cons.1 hbasis
    obtain ⟨hye, hy⟩ := List.forall_mem_cons.1 hy
    rw [orthogonalize_cons, ih hbasis hy (length_combine_eq he hv),
      form_combine _ _ (by rw [he, hv]), hye]
    ring

theorem form_self_nonneg (v : List ℝ) : 0 ≤ form v v := by
  induction v with
  | nil => simp
  | cons a v ih =>
    rw [form_cons]
    exact add_nonneg (mul_self_nonneg a) ih

theorem eq_zero_of_form_self (v : List ℝ) (h : form v v ≤ 0) : ∀ a ∈ v, a = 0 := by
  induction v with
  | nil => simp
  | cons a v ih =>
    rw [form_cons] at h
    have ha := mul_self_nonneg a
    have hv := form_self_nonneg v
    rw [List.forall_mem_cons]
    exact ⟨mul_self_eq_zero.1 (by linarith), ih (by linarith)⟩

theorem eq_zero_of_norm {v : List ℝ} (h : norm v ≤ 0) : ∀ a ∈ v, a = 0 := by
  refine eq_zero_of_form_self v ?_
  rw [← dot_eq_form]
  exact Real.sqrt_eq_zero'.1 (le_antisymm h (Real.sqrt_nonneg _))

/-- What is left of a row when its components along an orthonormal list are taken away twice. -/
noncomputable def remainder (basis : List (List ℝ)) (row : List ℝ) : List ℝ :=
  orthogonalize basis (orthogonalize basis row)

theorem length_remainder {n : Nat} {basis : List (List ℝ)} (hbasis : ∀ e ∈ basis, e.length = n)
    {row : List ℝ} (hrow : row.length = n) : (remainder basis row).length = n :=
  length_orthogonalize hbasis (length_orthogonalize hbasis hrow)

theorem form_remainder {n : Nat} {basis : List (List ℝ)} {y : List ℝ}
    (hbasis : ∀ e ∈ basis, e.length = n) (hy : ∀ e ∈ basis, form e y = 0) {row : List ℝ}
    (hrow : row.length = n) : form (remainder basis row) y = form row y := by
  rw [remainder, form_orthogonalize hbasis hy (length_orthogonalize hbasis hrow),
    form_orthogonalize hbasis hy hrow]

theorem independentFrom_cons (tolerance : ℝ) (basis : List (List ℝ)) (row : List ℝ) (i : Nat)
    (rest : List (List ℝ × Nat)) :
    independentFrom tolerance basis ((row, i) :: rest) =
      if tolerance < norm (remainder basis row) then
        (row, i) :: independentFrom tolerance
          (basis ++ [divide (remainder basis row) (norm (remainder basis row))]) rest
      else independentFrom tolerance basis rest :=
  rfl

theorem mem_of_mem_independentFrom {tolerance : ℝ} {basis : List (List ℝ)}
    {rows : List (List ℝ × Nat)} {q : List ℝ × Nat}
    (hq : q ∈ independentFrom tolerance basis rows) : q ∈ rows := by
  induction rows generalizing basis with
  | nil => exact hq
  | cons r rows ih =>
    rw [independentFrom] at hq
    split at hq
    · rcases List.mem_cons.1 hq with rfl | hq
      · exact List.mem_cons_self
      · exact List.mem_cons_of_mem _ (ih hq)
    · exact List.mem_cons_of_mem _ (ih hq)

/-- What vanishes on the basis and on the rows kept vanishes on all rows. -/
theorem form_eq_zero_of_independentFrom {n : Nat} {y : List ℝ} {basis : List (List ℝ)}
    {rows : List (List ℝ × Nat)} (hbasis : ∀ e ∈ basis, e.length = n)
    (hrows : ∀ q ∈ rows, q.1.length = n) (hy : ∀ e ∈ basis, form e y = 0)
    (hkept : ∀ q ∈ independentFrom 0 basis rows, form q.1 y = 0) :
    ∀ q ∈ rows, form q.1 y = 0 := by
  induction rows generalizing basis with
  | nil => simp
  | cons r rows ih =>
    obtain ⟨row, i⟩ := r
    obtain ⟨hrow, hrows⟩ := List.forall_mem_cons.1 hrows
    have hform := form_remainder hbasis hy hrow
    rw [independentFrom_cons] at hkept
    rw [List.forall_mem_cons]
    split at hkept
    · -- a row kept joins the basis, normalized
      obtain ⟨hkeptRow, hkept⟩ := List.forall_mem_cons.1 hkept
      refine ⟨hkeptRow, ih ?_ hrows ?_ hkept⟩
      · intro e he
        rcases List.mem_append.1 he with he | he
        · exact hbasis e he
        · rw [List.mem_singleton.1 he, length_divide, length_remainder hbasis hrow]
      · intro e he
        rcases List.mem_append.1 he with he | he
        · exact hy e he
        · rw [List.mem_singleton.1 he, form_divide, hform, hkeptRow, zero_div]
    · -- a row left out has nothing left outside the basis
      have hzero := eq_zero_of_norm (not_lt.1 ‹_›)
      exact ⟨by rw [← hform, form_eq_zero hzero], ih hbasis hrows hy hkept⟩

theorem form_eq_zero_of_independentRows {n : Nat} {y : List ℝ} {rows : List (List ℝ × Nat)}
    (hrows : ∀ q ∈ rows, q.1.length = n)
    (hkept : ∀ q ∈ independentRows 0 rows, form q.1 y = 0) : ∀ q ∈ rows, form q.1 y = 0 :=
  form_eq_zero_of_independentFrom (by simp) hrows (by simp) hkept

/-! ## Pruning -/

theorem isNearMultiple_zero {earlier later : List ℝ} (h : later.length = earlier.length) :
    isNearMultiple 0 earlier later = false := by
  cases earlier with
  | nil => rfl
  | cons x earlier =>
    cases later with
    | nil => simp at h
    | cons y later =>
      unfold isNearMultiple
      split
      · rfl
      · simp

theorem isSubstantial_zero {row : List ℝ} (h : row ≠ []) : isSubstantial 0 row = true := by
  obtain ⟨x, row, rfl⟩ := List.exists_cons_of_ne_nil h
  simp [isSubstantial]

theorem prune_eq_nil {tolerance : ℝ} {rows : List (List ℝ × Nat)} (hrows : ∀ q ∈ rows, q.1 = []) :
    prune tolerance rows = [] := by
  have hnone : rows.filter (fun q => isSubstantial tolerance q.1) = [] := by
    refine List.filter_eq_nil_iff.2 ?_
    intro q hq
    simp [hrows q hq, isSubstantial]
  show (rows.filter fun q => isSubstantial tolerance q.1).filter _ = []
  rw [hnone]
  rfl

/-- With tolerance zero no row is negligible and none is near a multiple of another. -/
theorem prune_zero {n : Nat} (hn : 0 < n) {rows : List (List ℝ × Nat)}
    (hrows : ∀ q ∈ rows, q.1.length = n) : prune 0 rows = rows := by
  have hsubstantial : rows.filter (fun q => isSubstantial 0 q.1) = rows := by
    refine List.filter_eq_self.2 fun q hq => isSubstantial_zero ?_
    exact List.ne_nil_of_length_pos (hrows q hq ▸ hn)
  show (rows.filter fun q => isSubstantial 0 q.1).filter _ = rows
  rw [hsubstantial]
  refine List.filter_eq_self.2 ?_
  intro q hq
  simp only [Bool.not_eq_eq_eq_not, Bool.not_true, List.any_eq_false]
  intro r hr
  rw [isNearMultiple_zero ((hrows q hq).trans (hrows r hr).symm)]
  simp

end Linear

open Linear

namespace StandardForm

/-- The rows that an exact analyzer keeps. -/
noncomputable def reduce (p : StandardForm ℝ) (prunes : Bool) : StandardForm ℝ :=
  let candidates := if prunes then prune 0 p.rows.zipIdx else p.rows.zipIdx
  p.selectRows ((independentRows 0 candidates).map Prod.snd)

variable {p : StandardForm ℝ}

theorem mem_equations_of_mem_selectRows {α : Type} {p : StandardForm α} {indices : List Nat}
    {e : Equation α} (he : e ∈ (p.selectRows indices).equations) : e ∈ p.equations := by
  obtain ⟨i, _, hi⟩ := List.mem_filterMap.1 he
  exact List.mem_of_getElem? hi

theorem length_of_mem_zipIdx_rows {q : List ℝ × Nat} (hq : q ∈ p.rows.zipIdx) :
    q.1.length = p.numColumns :=
  length_of_mem_rows (List.fst_mem_of_mem_zipIdx hq)

/-- Pruning makes no difference, as no row of positive width is left out. -/
theorem reduce_eq (hn : 0 < p.numColumns) (prunes : Bool) :
    p.reduce prunes = p.selectRows ((independentRows 0 p.rows.zipIdx).map Prod.snd) := by
  unfold reduce
  rw [prune_zero hn fun _ => length_of_mem_zipIdx_rows, ite_self]

theorem form_eq_zero_of_reduce {prunes : Bool} {y : List ℝ}
    (hy : ∀ e ∈ (p.reduce prunes).equations, form e.coefficients y = 0) :
    ∀ e ∈ p.equations, form e.coefficients y = 0 := by
  intro e he
  rcases Nat.eq_zero_or_pos p.numColumns with hzero | hpos
  · rw [List.length_eq_zero_iff.1 ((p.width e he).trans hzero), form_nil_left]
  · rw [reduce_eq hpos] at hy
    -- rows travel as pairs of coefficients and number
    obtain ⟨i, hi⟩ := List.mem_iff_getElem?.1 he
    have hmem : (e.coefficients, i) ∈ p.rows.zipIdx := by
      rw [List.mk_mem_zipIdx_iff_getElem?, rows, List.getElem?_map, hi]
      rfl
    refine form_eq_zero_of_independentRows (fun _ => length_of_mem_zipIdx_rows) ?_ _ hmem
    rintro ⟨row, k⟩ hq
    have hk := List.mk_mem_zipIdx_iff_getElem?.1 (mem_of_mem_independentFrom hq)
    obtain ⟨f, hf, rfl⟩ := Option.map_eq_some_iff.1 (List.getElem?_map ▸ hk)
    exact hy f (List.mem_filterMap.2 ⟨k, List.mem_map.2 ⟨_, hq, rfl⟩, hf⟩)

theorem reduce_singleton {e : Equation ℝ} (he : p.equations = [e]) {a : ℝ}
    (ha : a ∈ e.coefficients) (hne : a ≠ 0) (prunes : Bool) : p.reduce prunes = p := by
  have hnorm : 0 < Linear.norm e.coefficients :=
    not_le.1 fun hle => hne (eq_zero_of_norm hle a ha)
  have hrows : p.rows.zipIdx = [(e.coefficients, 0)] := by
    rw [rows, he]
    rfl
  have hkept : independentRows 0 [(e.coefficients, 0)] = [(e.coefficients, 0)] := by
    rw [independentRows, independentFrom]
    exact if_pos hnorm
  have hselect : p.selectRows [0] = p := by
    cases p
    simp only [selectRows] at he ⊢
    subst he
    rfl
  have hn : 0 < p.numColumns :=
    lt_of_lt_of_eq (List.length_pos_of_mem ha) (p.width e (by simp [he]))
  rw [reduce_eq hn, hrows, hkept]
  exact hselect

theorem solves_reduce_iff (hp : ∃ x, p.Solves x) (prunes : Bool) {x : List ℝ} :
    (p.reduce prunes).Solves x ↔ p.Solves x := by
  constructor
  · intro hx
    obtain ⟨x₀, hx₀⟩ := hp
    have hlen : x.length = x₀.length := hx.length_eq.trans hx₀.length_eq.symm
    have hlevel := form_eq_zero_of_reduce (y := combine 1 x (-1) x₀) fun e he => by
      rw [form_combine_right _ _ hlen, hx.holds e he,
        hx₀.holds e (mem_equations_of_mem_selectRows he)]
      ring
    refine ⟨hx.length_eq, ?_⟩
    intro e he
    have hdiff := hlevel e he
    rw [form_combine_right _ _ hlen, hx₀.holds e he] at hdiff
    linarith
  · intro hx
    exact ⟨hx.length_eq, fun e he => hx.holds e (mem_equations_of_mem_selectRows he)⟩

theorem feasible_reduce_iff (hp : ∃ x, p.Solves x) (prunes : Bool) {x : List ℝ} :
    (p.reduce prunes).Feasible x ↔ p.Feasible x := by
  constructor
  · intro hx
    exact ⟨(solves_reduce_iff hp prunes).1 hx.toSolves, hx.nonneg⟩
  · intro hx
    exact ⟨(solves_reduce_iff hp prunes).2 hx.toSolves, hx.nonneg⟩

theorem Improves.of_reduce {prunes : Bool} {y : List ℝ} (hy : (p.reduce prunes).Improves y) :
    p.Improves y :=
  ⟨hy.length_eq, hy.nonneg, form_eq_zero_of_reduce hy.level, hy.falls⟩

end StandardForm

theorem Analyzer.IsExact.selectRows_eq {a : Analyzer ℝ} (h : a.IsExact) (p : StandardForm ℝ) :
    p.selectRows (a.keptRows p.rows) = p.reduce a.prunes := by
  rw [Analyzer.keptRows, Analyzer.candidates, h.tolerance]
  rfl

end PenaltySimplex
