import Mathlib.Analysis.InnerProductSpace.GramSchmidtOrtho
import PenaltySimplex.Proofs.Analysis
import PenaltySimplex.Proofs.Resolution

/-!
# PenaltySimplex.Proofs.SmallTolerance

On given equations every analysis with a small positive tolerance is the exact one
(`Analyzer.eventually_analyze`). How small depends on the equations.

* The orthogonalization compares finitely many lengths with the tolerance
  (`eventually_independentFrom`).
* Pruning leaves out zero rows and multiples of earlier rows only (`eventually_mem_rowSpan`), and
  these would be left out later (`eventually_independentRows`).
* The residual is the distance from the columns of an orthogonal factor whose diagonal entries
  exceed the tolerance (`Factorization`, `Analyzer.MeasuresBy`). All nonzero diagonal entries do
  (`Factorization.eventually_space`).
-/

namespace PenaltySimplex

open Filter

namespace Linear

/-! ## Comparisons -/

theorem eventually_le_iff (x : ℝ) : ∀ᶠ e : Set.Ioi (0 : ℝ) in atBot, (e : ℝ) ≤ x ↔ 0 < x := by
  rcases lt_or_ge 0 x with hx | hx
  · filter_upwards [Dictionary.eventually_lt hx] with e he
    exact iff_of_true he.le hx
  · refine Eventually.of_forall fun e => iff_of_false (not_le.2 ?_) (not_lt.2 hx)
    exact hx.trans_lt e.property

theorem eventually_lt_iff (x : ℝ) : ∀ᶠ e : Set.Ioi (0 : ℝ) in atBot, (e : ℝ) < x ↔ 0 < x := by
  rcases lt_or_ge 0 x with hx | hx
  · filter_upwards [Dictionary.eventually_lt hx] with e he
    exact iff_of_true he hx
  · refine Eventually.of_forall fun e => iff_of_false (not_lt.2 ?_) (not_lt.2 hx)
    exact hx.trans e.property.le

theorem eventually_forall_mem {ι α : Type} {l : Filter ι} {xs : List α} {P : ι → α → Prop}
    (h : ∀ x ∈ xs, ∀ᶠ i in l, P i x) : ∀ᶠ i in l, ∀ x ∈ xs, P i x :=
  (eventually_all_finite (List.finite_toSet xs)).2 h

/-! ## Orthogonalization -/

theorem eventually_independentFrom (basis : List (List ℝ)) (rows : List (List ℝ × Nat)) :
    ∀ᶠ e : Set.Ioi (0 : ℝ) in atBot,
      independentFrom (e : ℝ) basis rows = independentFrom 0 basis rows := by
  induction rows generalizing basis with
  | nil => exact Eventually.of_forall fun _ => rfl
  | cons q rows ih =>
    obtain ⟨row, i⟩ := q
    filter_upwards [eventually_lt_iff (norm (remainder basis row)), ih basis,
      ih (basis ++ [divide (remainder basis row) (norm (remainder basis row))])]
      with e hlt hleft hkept
    rw [independentFrom_cons, independentFrom_cons, hleft, hkept]
    exact if_congr hlt rfl rfl

/-! ## Pruning -/

section Pruning

variable {n : Nat}

theorem eventually_vector_eq_zero (n : Nat) (row : List ℝ) :
    ∀ᶠ e : Set.Ioi (0 : ℝ) in atBot, isSubstantial (e : ℝ) row = false → vector n row = 0 := by
  have hentries : ∀ᶠ e : Set.Ioi (0 : ℝ) in atBot, ∀ x ∈ row, (e : ℝ) ≤ |x| ↔ 0 < |x| :=
    eventually_forall_mem fun x _ => eventually_le_iff |x|
  filter_upwards [hentries] with e he hsmall
  refine vector_eq_zero fun x hx => ?_
  have hle := List.any_eq_false.1 hsmall x hx
  rw [decide_eq_true_eq, Scalar.abs_eq, he x hx] at hle
  exact abs_nonpos_iff.1 (not_lt.1 hle)

/-- The anchor moves with the tolerance, but there are only finitely many places for it. -/
theorem eventually_exists_smul {earlier later : List ℝ} (hearlier : earlier.length = n)
    (hlater : later.length = n) : ∀ᶠ e : Set.Ioi (0 : ℝ) in atBot,
      isNearMultiple (e : ℝ) earlier later = true →
        ∃ c : ℝ, vector n later = c • vector n earlier := by
  have hentries : ∀ᶠ e : Set.Ioi (0 : ℝ) in atBot, ∀ k j : Fin n,
      (e : ℝ) ≤ |vector n later j - later.getD k 0 / earlier.getD k 0 * vector n earlier j| ↔
        0 < |vector n later j - later.getD k 0 / earlier.getD k 0 * vector n earlier j| :=
    eventually_all.2 fun k => eventually_all.2 fun j => eventually_le_iff _
  filter_upwards [hentries] with e he hnear
  unfold isNearMultiple at hnear
  cases hanchor : anchor? (e : ℝ) earlier with
  | none =>
    rw [hanchor] at hnear
    cases hnear
  | some k =>
    rw [hanchor] at hnear
    obtain ⟨hk, _⟩ := List.findIdx?_eq_some_iff_getElem.1 hanchor
    refine ⟨later.getD k 0 / earlier.getD k 0, ?_⟩
    funext j
    have hjearlier : j.val < earlier.length := hearlier ▸ j.isLt
    have hjlater : j.val < later.length := hlater ▸ j.isLt
    have hpair : (vector n later j, vector n earlier j) ∈ later.zip earlier := by
      refine List.mem_iff_getElem.2 ⟨j, by simp [hjearlier, hjlater], ?_⟩
      simp [vector, hjearlier, hjlater]
    have hlt := List.all_eq_true.1 hnear _ hpair
    simp only [decide_eq_true_eq, Scalar.abs_eq] at hlt
    have hnot := mt (he ⟨k, hearlier ▸ hk⟩ j).2 (not_le.2 hlt)
    exact sub_eq_zero.1 (abs_nonpos_iff.1 (not_lt.1 hnot))

theorem prune_eq_filter (tolerance : ℝ) (rows : List (List ℝ × Nat)) :
    prune tolerance rows = rows.filter fun q =>
      (!(rows.filter fun r => isSubstantial tolerance r.1).any fun r =>
        decide (r.2 < q.2) && isNearMultiple tolerance r.1 q.1) && isSubstantial tolerance q.1 :=
  List.filter_filter

/-- What pruning leaves out is zero or a multiple of an earlier row. -/
theorem eventually_mem_rowSpan {rows : List (List ℝ)} (hrows : ∀ row ∈ rows, row.length = n) :
    ∀ᶠ e : Set.Ioi (0 : ℝ) in atBot, ∀ q ∈ rows.zipIdx, q ∉ prune (e : ℝ) rows.zipIdx →
      vector n q.1 ∈ rowSpan n (rows.take q.2) := by
  have hlen : ∀ q ∈ rows.zipIdx, q.1.length = n := fun q hq =>
    hrows _ (List.fst_mem_of_mem_zipIdx hq)
  have hzero : ∀ᶠ e : Set.Ioi (0 : ℝ) in atBot, ∀ q ∈ rows.zipIdx,
      isSubstantial (e : ℝ) q.1 = false → vector n q.1 = 0 :=
    eventually_forall_mem fun q _ => eventually_vector_eq_zero n q.1
  have hmultiple : ∀ᶠ e : Set.Ioi (0 : ℝ) in atBot, ∀ r ∈ rows.zipIdx, ∀ q ∈ rows.zipIdx,
      isNearMultiple (e : ℝ) r.1 q.1 = true → ∃ c : ℝ, vector n q.1 = c • vector n r.1 :=
    eventually_forall_mem fun r hr => eventually_forall_mem fun q hq =>
      eventually_exists_smul (hlen r hr) (hlen q hq)
  filter_upwards [hzero, hmultiple] with e hzero hmultiple q hq hleft
  rw [prune_eq_filter, List.mem_filter, not_and, Bool.and_eq_true, not_and_or] at hleft
  rcases hleft hq with hnear | hsmall
  · rw [Bool.not_eq_true', Bool.not_eq_false, List.any_eq_true] at hnear
    obtain ⟨r, hr, hboth⟩ := hnear
    rw [Bool.and_eq_true, decide_eq_true_eq] at hboth
    obtain ⟨hbefore, hnear⟩ := hboth
    obtain ⟨hr, _⟩ := List.mem_filter.1 hr
    obtain ⟨hlt, hget⟩ := List.getElem?_eq_some_iff.1 (List.mk_mem_zipIdx_iff_getElem?.1 hr)
    have htake : r.1 ∈ rows.take q.2 :=
      List.mem_take_iff_getElem.2 ⟨r.2, lt_min hbefore hlt, hget⟩
    obtain ⟨c, hc⟩ := hmultiple r hr q hq hnear
    rw [hc]
    exact Submodule.smul_mem _ _ (vector_mem_rowSpan htake)
  · rw [hzero q hq (Bool.eq_false_of_not_eq_true hsmall)]
    exact Submodule.zero_mem _

theorem eventually_independentRows {rows : List (List ℝ)} (hrows : ∀ row ∈ rows, row.length = n) :
    ∀ᶠ e : Set.Ioi (0 : ℝ) in atBot,
      independentRows (e : ℝ) rows.zipIdx = independentRows 0 rows.zipIdx ∧
      independentRows (e : ℝ) (prune (e : ℝ) rows.zipIdx) = independentRows 0 rows.zipIdx := by
  -- pruning leaves one of finitely many parts of the list, whatever the tolerance
  have hparts : ∀ᶠ e : Set.Ioi (0 : ℝ) in atBot, ∀ part ∈ rows.zipIdx.sublists,
      independentRows (e : ℝ) part = independentRows 0 part :=
    eventually_forall_mem fun part _ => eventually_independentFrom [] part
  filter_upwards [hparts, eventually_mem_rowSpan hrows] with e hparts hspan
  refine ⟨hparts _ (List.mem_sublists.2 (List.Sublist.refl _)), ?_⟩
  rw [prune_eq_filter] at hspan ⊢
  rw [hparts _ (List.mem_sublists.2 List.filter_sublist)]
  refine (independentFrom_filter (isOrthonormal_nil n) (rfl : rowSpan n [] = rowSpan n []) hrows
    ?_).trans (independentFrom_eq_filter (isOrthonormal_nil n)
      (rfl : rowSpan n [] = rowSpan n []) hrows).symm
  intro q hq hleft
  refine hspan q hq fun hmem => ?_
  rw [(List.mem_filter.1 hmem).2] at hleft
  cases hleft

end Pruning

end Linear

open Linear

theorem Analyzer.eventually_keptRows (p : StandardForm ℝ) :
    ∀ᶠ e : Set.Ioi (0 : ℝ) in atBot, ∀ a : Analyzer ℝ, a.tolerance = e →
      a.keptRows p.rows = (exact false).keptRows p.rows := by
  have hrows : ∀ row ∈ p.rows, row.length = p.numColumns := fun _ => StandardForm.length_of_mem_rows
  filter_upwards [eventually_independentRows hrows] with e he a ha
  unfold keptRows candidates
  rw [ha]
  split
  · exact congrArg _ he.2
  · exact congrArg _ he.1

/-! ## The residual -/

/-- For each matrix, given by its width and rows, the diagonal entries of a triangular factor, each
with its column of the orthogonal factor. -/
structure Factorization where
  factors : Nat → (rows : List (List ℝ)) → List (ℝ × EuclideanSpace ℝ (Fin rows.length))
  /-- Behind a zero on the diagonal column pivoting leaves zeros only, so the columns of the
  nonzero entries span the column space. -/
  span_factors : ∀ width rows,
    Submodule.span ℝ {q | ∃ r, r ≠ 0 ∧ (r, q) ∈ factors width rows} = columnSpan width rows

namespace Factorization

/-- The span of the columns whose diagonal entries exceed the tolerance. -/
def space (f : Factorization) (tolerance : ℝ) (width : Nat) (rows : List (List ℝ)) :
    Submodule ℝ (EuclideanSpace ℝ (Fin rows.length)) :=
  Submodule.span ℝ {q | ∃ r, tolerance < |r| ∧ (r, q) ∈ f.factors width rows}

noncomputable def distance (f : Factorization) (tolerance : ℝ) (width : Nat)
    (rows : List (List ℝ)) (b : List ℝ) : ℝ :=
  distanceFrom (f.space tolerance width rows) b

theorem space_le (f : Factorization) {tolerance : ℝ} (h : 0 ≤ tolerance) (width : Nat)
    (rows : List (List ℝ)) : f.space tolerance width rows ≤ columnSpan width rows := by
  rw [← f.span_factors]
  refine Submodule.span_mono ?_
  rintro q ⟨r, hr, hq⟩
  exact ⟨r, abs_pos.1 (h.trans_lt hr), hq⟩

theorem eventually_space (f : Factorization) (width : Nat) (rows : List (List ℝ)) :
    ∀ᶠ e : Set.Ioi (0 : ℝ) in atBot, f.space (e : ℝ) width rows = columnSpan width rows := by
  have hfactors : ∀ᶠ e : Set.Ioi (0 : ℝ) in atBot, ∀ x ∈ f.factors width rows,
      (e : ℝ) < |x.1| ↔ 0 < |x.1| :=
    eventually_forall_mem fun x _ => eventually_lt_iff |x.1|
  filter_upwards [hfactors] with e he
  rw [space, ← f.span_factors]
  congr 1
  ext q
  refine exists_congr fun r => and_congr_left fun hr => ?_
  rw [he (r, q) hr, abs_pos]

/-- The factorization by the Gram-Schmidt process, with the lengths of the orthogonal vectors on the
diagonal. -/
noncomputable def gramSchmidt : Factorization where
  factors width rows := List.ofFn fun j : Fin width =>
    (‖InnerProductSpace.gramSchmidt ℝ (fun j : Fin width => columnVector rows j) j‖,
      InnerProductSpace.gramSchmidtNormed ℝ (fun j : Fin width => columnVector rows j) j)
  span_factors width rows := by
    rw [columnSpan, ← InnerProductSpace.span_gramSchmidt,
      ← InnerProductSpace.span_gramSchmidtNormed_range]
    refine le_antisymm (Submodule.span_mono ?_) (Submodule.span_le.2 ?_)
    · rintro q ⟨r, _, hq⟩
      obtain ⟨j, hj⟩ := List.mem_ofFn.1 hq
      exact ⟨j, congrArg Prod.snd hj⟩
    · rintro _ ⟨j, rfl⟩
      by_cases hzero :
          ‖InnerProductSpace.gramSchmidt ℝ (fun j : Fin width => columnVector rows j) j‖ = 0
      · rw [InnerProductSpace.gramSchmidtNormed, norm_eq_zero.1 hzero, smul_zero]
        exact Submodule.zero_mem _
      · exact Submodule.subset_span ⟨_, hzero, List.mem_ofFn.2 ⟨j, rfl⟩⟩

end Factorization

/-- Its residuals are the distances from the spaces of a factorization. -/
def Analyzer.MeasuresBy (f : Factorization) (a : Analyzer ℝ) : Prop :=
  ∀ p : StandardForm ℝ, (a.measure p.numColumns p.rows p.rhs).distance =
    f.distance a.tolerance p.numColumns p.rows p.rhs

noncomputable def Analyzer.measuring (f : Factorization) (tolerance : ℝ) (prunes : Bool) :
    Analyzer ℝ where
  tolerance
  prunes
  measure width rows b := ⟨none, f.distance tolerance width rows b⟩

theorem Analyzer.measuresBy_measuring (f : Factorization) (tolerance : ℝ) (prunes : Bool) :
    (measuring f tolerance prunes).MeasuresBy f :=
  fun _ => rfl

theorem Analyzer.eventually_analyze (f : Factorization) (p : StandardForm ℝ) :
    ∀ᶠ e : Set.Ioi (0 : ℝ) in atBot, ∀ a : Analyzer ℝ, a.tolerance = e → a.MeasuresBy f →
      (a.analyze p).value = ((exact false).analyze p).value := by
  filter_upwards [eventually_keptRows p, f.eventually_space p.numColumns p.rows,
    eventually_lt_iff (columnDistance p.numColumns p.rows p.rhs)]
    with e hkept hspace hlt a ha hmeasure
  rw [value_analyze, value_analyze, hkept a ha, hmeasure p, ha, Factorization.distance, hspace]
  exact if_congr hlt rfl rfl

end PenaltySimplex
