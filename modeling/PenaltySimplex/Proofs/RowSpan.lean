import Mathlib.LinearAlgebra.Span.Basic
import PenaltySimplex.Proofs.RowReduction

/-!
# PenaltySimplex.Proofs.RowSpan

Which rows the orthogonalization keeps, with real arithmetic and tolerance zero: those that are no
linear combination of the rows before them (`independentFrom_eq_filter`).

The basis built on the way is orthonormal (`IsOrthonormal`) and spans the rows read so far. What is
left of a row after orthogonalizing it twice, its `remainder`, differs from the row by a vector of
that span and is orthogonal to the span. So it vanishes exactly when the row lies in the span
(`IsOrthonormal.norm_remainder_pos_iff`), and otherwise, normalized, it extends the basis to the
span with the row (`IsOrthonormal.concat`, `rowSpan_concat_remainder`).
-/

namespace PenaltySimplex
namespace Linear

/-! ## Rows as vectors -/

/-- A row as a vector with `n` entries. -/
def vector (n : Nat) (row : List ℝ) : Fin n → ℝ :=
  fun j => row.getD j 0

/-- The linear combinations of some rows. -/
def rowSpan (n : Nat) (rows : List (List ℝ)) : Submodule ℝ (Fin n → ℝ) :=
  Submodule.span ℝ (vector n '' {row | row ∈ rows})

variable {n : Nat} {rows : List (List ℝ)} {row : List ℝ}

theorem vector_combine (a b : ℝ) {u v : List ℝ} (hu : u.length = n) (hv : v.length = n) :
    vector n (combine a u b v) = a • vector n u + b • vector n v := by
  funext j
  have hju : j.val < u.length := hu ▸ j.isLt
  have hjv : j.val < v.length := hv ▸ j.isLt
  simp [vector, combine, hju, hjv]

theorem vector_divide (a : ℝ) (v : List ℝ) : vector n (divide v a) = a⁻¹ • vector n v := by
  funext j
  simp only [vector, divide, List.getD_eq_getElem?_getD, List.getElem?_map, Pi.smul_apply,
    smul_eq_mul]
  cases v[j.val]? with
  | none => simp
  | some x =>
    show x / a = a⁻¹ * x
    ring

theorem vector_eq_zero {v : List ℝ} (h : ∀ a ∈ v, a = 0) : vector n v = 0 := by
  funext j
  rcases lt_or_ge j.val v.length with hj | hj
  · show v.getD j 0 = 0
    rw [List.getD_eq_getElem _ _ hj]
    exact h _ (List.getElem_mem hj)
  · exact List.getD_eq_default _ _ hj

theorem vector_mem_rowSpan (h : row ∈ rows) : vector n row ∈ rowSpan n rows :=
  Submodule.subset_span ⟨row, h, rfl⟩

theorem rowSpan_le {s : Submodule ℝ (Fin n → ℝ)} (h : ∀ row ∈ rows, vector n row ∈ s) :
    rowSpan n rows ≤ s := by
  refine Submodule.span_le.2 ?_
  rintro _ ⟨row, hrow, rfl⟩
  exact h row hrow

theorem rowSpan_mono {more : List (List ℝ)} (h : rows ⊆ more) : rowSpan n rows ≤ rowSpan n more :=
  rowSpan_le fun _ hrow => vector_mem_rowSpan (h hrow)

theorem rowSpan_concat (n : Nat) (rows : List (List ℝ)) (row : List ℝ) :
    rowSpan n (rows ++ [row]) = Submodule.span ℝ {vector n row} ⊔ rowSpan n rows := by
  rw [rowSpan, rowSpan, ← Submodule.span_insert, ← Set.image_insert_eq]
  congr 2
  ext u
  simp [or_comm]

theorem rowSpan_concat_of_mem (h : vector n row ∈ rowSpan n rows) :
    rowSpan n (rows ++ [row]) = rowSpan n rows := by
  rw [rowSpan_concat]
  exact sup_eq_right.2 ((Submodule.span_singleton_le_iff_mem _ _).2 h)

theorem span_le_of_sub_mem {s : Submodule ℝ (Fin n → ℝ)} {u v : Fin n → ℝ} (h : u - v ∈ s) :
    Submodule.span ℝ {u} ⊔ s ≤ Submodule.span ℝ {v} ⊔ s := by
  refine sup_le ((Submodule.span_singleton_le_iff_mem _ _).2 ?_) le_sup_right
  rw [← add_sub_cancel v u]
  exact Submodule.add_mem_sup (Submodule.mem_span_singleton_self v) h

/-- A direction on which rows vanish is one on which their combinations vanish. -/
theorem form_eq_zero_of_mem_rowSpan {y : List ℝ} (hlen : ∀ row ∈ rows, row.length = n)
    (hy : ∀ row ∈ rows, form row y = 0) (hrow : row.length = n)
    (h : vector n row ∈ rowSpan n rows) : form row y = 0 := by
  have hform : ∀ {u : List ℝ}, u.length = n → form u y = ∑ j, vector n u j * vector n y j := by
    intro u hu
    rw [form_eq_sum hu.le, Finset.sum_range]
    rfl
  have hvanish : ∀ v ∈ rowSpan n rows, ∑ j, v j * vector n y j = 0 := by
    intro v hv
    induction hv using Submodule.span_induction with
    | mem v hv =>
      obtain ⟨u, hu, rfl⟩ := hv
      rw [← hform (hlen u hu), hy u hu]
    | zero => simp
    | add v w _ _ hv hw => simp [add_mul, Finset.sum_add_distrib, hv, hw]
    | smul a v _ hv => simp [mul_assoc, ← Finset.mul_sum, hv]
  rw [hform hrow]
  exact hvanish _ h

/-! ## Orthonormal lists -/

structure IsOrthonormal (n : Nat) (basis : List (List ℝ)) : Prop where
  length_eq : ∀ e ∈ basis, e.length = n
  unit : ∀ e ∈ basis, form e e = 1
  orthogonal : basis.Pairwise fun e f => form e f = 0

theorem isOrthonormal_nil (n : Nat) : IsOrthonormal n [] :=
  ⟨by simp, by simp, List.Pairwise.nil⟩

theorem form_orthogonalize_eq_zero {basis : List (List ℝ)} (h : IsOrthonormal n basis)
    {v : List ℝ} (hv : v.length = n) : ∀ e ∈ basis, form e (orthogonalize basis v) = 0 := by
  obtain ⟨hlen, hunit, horthogonal⟩ := h
  induction basis generalizing v with
  | nil => simp
  | cons e basis ih =>
    obtain ⟨he, hlen⟩ := List.forall_mem_cons.1 hlen
    obtain ⟨hee, hunit⟩ := List.forall_mem_cons.1 hunit
    obtain ⟨hef, horthogonal⟩ := List.pairwise_cons.1 horthogonal
    have hv' : (combine (-(dot e v)) e 1 v).length = n := length_combine_eq he hv
    rw [orthogonalize_cons, List.forall_mem_cons]
    refine ⟨?_, ih hv' hlen hunit horthogonal⟩
    -- the later vectors do not bring the component along `e` back
    rw [form_comm, form_orthogonalize hlen (fun f hf => (form_comm f e).trans (hef f hf)) hv',
      form_combine _ _ (by rw [he, hv]), hee, dot_eq_form, form_comm v]
    ring

theorem sub_orthogonalize_mem_rowSpan {basis : List (List ℝ)} (hlen : ∀ e ∈ basis, e.length = n)
    {v : List ℝ} (hv : v.length = n) :
    vector n v - vector n (orthogonalize basis v) ∈ rowSpan n basis := by
  induction basis generalizing v with
  | nil =>
    rw [show orthogonalize [] v = v from rfl, sub_self]
    exact Submodule.zero_mem _
  | cons e basis ih =>
    obtain ⟨he, hlen⟩ := List.forall_mem_cons.1 hlen
    have hv' : (combine (-(dot e v)) e 1 v).length = n := length_combine_eq he hv
    have hlater := rowSpan_mono (List.subset_cons_self e basis) (ih hlen hv')
    have hfirst : vector n e ∈ rowSpan n (e :: basis) := vector_mem_rowSpan List.mem_cons_self
    rw [vector_combine _ _ he hv] at hlater
    rw [orthogonalize_cons]
    -- the first step takes a multiple of `e` away
    convert Submodule.add_mem _ (Submodule.smul_mem _ (dot e v) hfirst) hlater using 1
    module

/-! ## The remainder of a row -/

theorem norm_mul_self (v : List ℝ) : norm v * norm v = form v v := by
  show √(dot v v) * √(dot v v) = _
  rw [dot_eq_form, Real.mul_self_sqrt (form_self_nonneg v)]

theorem vector_eq_zero_of_norm {v : List ℝ} (h : norm v ≤ 0) : vector n v = 0 :=
  vector_eq_zero (eq_zero_of_norm h)

namespace IsOrthonormal

variable {basis : List (List ℝ)} (h : IsOrthonormal n basis) (hrow : row.length = n)

include h hrow

theorem form_remainder_eq_zero : ∀ e ∈ basis, form e (remainder basis row) = 0 :=
  form_orthogonalize_eq_zero h (length_orthogonalize h.length_eq hrow)

theorem sub_remainder_mem : vector n row - vector n (remainder basis row) ∈ rowSpan n basis := by
  have hfirst := sub_orthogonalize_mem_rowSpan h.length_eq hrow
  have hsecond := sub_orthogonalize_mem_rowSpan h.length_eq (length_orthogonalize h.length_eq hrow)
  have hsum := Submodule.add_mem _ hfirst hsecond
  rwa [sub_add_sub_cancel] at hsum

theorem norm_remainder_pos_iff :
    0 < norm (remainder basis row) ↔ vector n row ∉ rowSpan n basis := by
  rw [← not_le, not_iff_not]
  have hsub := h.sub_remainder_mem hrow
  constructor
  · intro hnorm
    rwa [vector_eq_zero_of_norm hnorm, sub_zero] at hsub
  · intro hmem
    have hrem : vector n (remainder basis row) ∈ rowSpan n basis := by
      have hdiff := Submodule.sub_mem _ hmem hsub
      rwa [sub_sub_cancel] at hdiff
    have hzero := form_eq_zero_of_mem_rowSpan h.length_eq (h.form_remainder_eq_zero hrow)
      (length_remainder h.length_eq hrow) hrem
    rw [← norm_mul_self] at hzero
    exact (mul_self_eq_zero.1 hzero).le

section Keep

variable (hpos : 0 < norm (remainder basis row))

include hpos

theorem concat :
    IsOrthonormal n (basis ++ [divide (remainder basis row) (norm (remainder basis row))]) where
  length_eq e he := by
    rcases List.mem_append.1 he with he | he
    · exact h.length_eq e he
    · rw [List.mem_singleton.1 he, length_divide, length_remainder h.length_eq hrow]
  unit e he := by
    rcases List.mem_append.1 he with he | he
    · exact h.unit e he
    · rw [List.mem_singleton.1 he, form_divide, form_comm, form_divide, ← norm_mul_self,
        mul_div_cancel_left₀ _ hpos.ne', div_self hpos.ne']
  orthogonal := by
    refine List.pairwise_append.2 ⟨h.orthogonal, List.pairwise_singleton _ _, ?_⟩
    intro e he f hf
    rw [List.mem_singleton.1 hf, form_comm, form_divide, form_comm,
      h.form_remainder_eq_zero hrow e he, zero_div]

theorem rowSpan_concat_remainder :
    rowSpan n (basis ++ [divide (remainder basis row) (norm (remainder basis row))]) =
      rowSpan n (basis ++ [row]) := by
  have hsub := h.sub_remainder_mem hrow
  have hsub' := Submodule.neg_mem _ hsub
  rw [neg_sub] at hsub'
  rw [rowSpan_concat, rowSpan_concat, vector_divide,
    Submodule.span_singleton_smul_eq (inv_ne_zero hpos.ne').isUnit]
  exact le_antisymm (span_le_of_sub_mem hsub') (span_le_of_sub_mem hsub)

end Keep

end IsOrthonormal

/-! ## The selection -/

open scoped Classical in
/-- The rows kept are the ones outside the span of the rows before them, also when rows inside that
span have been left out before. -/
theorem independentFrom_filter {basis seen : List (List ℝ)} (h : IsOrthonormal n basis)
    (hspan : rowSpan n basis = rowSpan n seen) (hrows : ∀ row ∈ rows, row.length = n)
    {P : List ℝ × Nat → Bool} (hP : ∀ q ∈ rows.zipIdx seen.length, P q = false →
      vector n q.1 ∈ rowSpan n ((seen ++ rows).take q.2)) :
    independentFrom 0 basis ((rows.zipIdx seen.length).filter P) =
      (rows.zipIdx seen.length).filter fun q =>
        vector n q.1 ∉ rowSpan n ((seen ++ rows).take q.2) := by
  induction rows generalizing basis seen with
  | nil => rfl
  | cons row rows ih =>
    obtain ⟨hrow, hrows⟩ := List.forall_mem_cons.1 hrows
    obtain ⟨hfirst, hP⟩ := List.forall_mem_cons.1 hP
    have hkeep := h.norm_remainder_pos_iff hrow
    rw [hspan] at hkeep
    have htake : (seen ++ row :: rows).take seen.length = seen := List.take_left
    -- whichever basis comes next, it spans the rows read so far and this one
    have hnext : ∀ basis', IsOrthonormal n basis' →
        rowSpan n basis' = rowSpan n (seen ++ [row]) →
        independentFrom 0 basis' ((rows.zipIdx (seen.length + 1)).filter P) =
          (rows.zipIdx (seen.length + 1)).filter fun q =>
            vector n q.1 ∉ rowSpan n ((seen ++ row :: rows).take q.2) := by
      intro basis' h' hspan'
      have hrest := ih h' hspan' hrows
      rw [List.length_append, List.length_singleton, List.append_assoc, List.singleton_append]
        at hrest
      exact hrest hP
    rw [List.zipIdx_cons, List.filter_cons, List.filter_cons, htake]
    by_cases hmem : vector n row ∈ rowSpan n seen
    · have hout : ¬ decide (vector n row ∉ rowSpan n seen) = true := by simpa using hmem
      have hskip := hnext basis h (by rw [hspan, rowSpan_concat_of_mem hmem])
      rw [if_neg hout]
      cases hfilter : P (row, seen.length) with
      | false => exact hskip
      | true =>
        rw [if_pos rfl, independentFrom_cons, if_neg fun hpos => hkeep.1 hpos hmem]
        exact hskip
    · have hin : decide (vector n row ∉ rowSpan n seen) = true := by simpa using hmem
      have hpos := hkeep.2 hmem
      have hfilter : P (row, seen.length) = true :=
        of_not_not fun hdropped => hmem (htake ▸ hfirst (Bool.eq_false_of_not_eq_true hdropped))
      rw [if_pos hfilter, if_pos hin, independentFrom_cons, if_pos hpos]
      refine congrArg _ (hnext _ (h.concat hrow hpos) ?_)
      rw [h.rowSpan_concat_remainder hrow hpos, rowSpan_concat, rowSpan_concat, hspan]

open scoped Classical in
theorem independentFrom_eq_filter {basis seen : List (List ℝ)} (h : IsOrthonormal n basis)
    (hspan : rowSpan n basis = rowSpan n seen) (hrows : ∀ row ∈ rows, row.length = n) :
    independentFrom 0 basis (rows.zipIdx seen.length) =
      (rows.zipIdx seen.length).filter fun q =>
        vector n q.1 ∉ rowSpan n ((seen ++ rows).take q.2) := by
  have h := independentFrom_filter (P := fun _ => true) h hspan hrows (by simp)
  rwa [List.filter_true] at h

end Linear
end PenaltySimplex
