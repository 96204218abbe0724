import Mathlib.Data.List.GetD
import PenaltySimplex.Proofs.TableauProgram
import PenaltySimplex.Simplex.Rule

/-!
# PenaltySimplex.Proofs.Basis

Dictionaries in canonical form: the column of each basic variable is the unit vector of its row,
with reduced cost zero (`Canonical`).

A canonical dictionary solves its own equations. `basicPoint` has the right-hand sides at the
basic variables and zeros elsewhere; it is the point that `values` reads off
(`Canonical.value_eq`). `direction c` raises variable `c` by one and keeps every equation.
A solution is determined by its nonbasic entries (`Canonical.eq_of_agree`), so two equivalent
dictionaries with the same basis have the same entries (`Canonical.entry_eq`).
-/

namespace PenaltySimplex

variable {K : Type} [Field K]

namespace Dictionary

/-- The basic variable of constraint row `i`, counted from zero. -/
def basic {α : Type} (d : Dictionary α) (i : Nat) : Nat :=
  d.basis.getD i 0

structure Canonical (d : Dictionary K) : Prop where
  numRows_pos : 0 < d.tableau.numRows
  numColumns_pos : 0 < d.tableau.numColumns
  length_basis : d.basis.length = d.tableau.numConstraints
  basic_lt : ∀ i < d.tableau.numConstraints, d.basic i < d.tableau.numVariables
  unit : ∀ i < d.tableau.numConstraints, ∀ k < d.tableau.numRows,
    d.tableau.entry k (d.basic i) = if k = i + 1 then 1 else 0

/-- Values for the basic variables, given by rows, and zeros elsewhere. -/
def spread (d : Dictionary K) (u : Nat → K) (j : Nat) : K :=
  ∑ i ∈ Finset.range d.tableau.numConstraints, if d.basic i = j then u i else 0

/-- The solution whose nonbasic entries are zero. -/
def basicPoint (d : Dictionary K) : Nat → K :=
  d.spread fun i => d.tableau.rhs (i + 1)

/-- How the basic variables answer when variable `c` is raised by one. -/
def direction (d : Dictionary K) (c j : Nat) : K :=
  (if j = c then 1 else 0) - d.spread (fun i => d.tableau.entry (i + 1) c) j

theorem rowForm_spread (d : Dictionary K) (hlt : ∀ i < d.tableau.numConstraints,
    d.basic i < d.tableau.numVariables) (k : Nat) (u : Nat → K) :
    d.tableau.rowForm k (d.spread u) =
      ∑ i ∈ Finset.range d.tableau.numConstraints, d.tableau.entry k (d.basic i) * u i := by
  unfold Tableau.rowForm spread
  simp only [Finset.mul_sum, mul_ite, mul_zero]
  rw [Finset.sum_comm]
  refine Finset.sum_congr rfl ?_
  intro i hi
  rw [Finset.sum_ite_eq, if_pos (Finset.mem_range.2 (hlt i (Finset.mem_range.1 hi)))]

theorem foldl_zipIdx_eq_sum {l : List Nat} (hl : l.Nodup) (f : Nat → K) (j : Nat) :
    l.zipIdx.foldl (fun x (k, i) => if k = j then f i else x) 0 =
      ∑ i ∈ Finset.range l.length, if l.getD i 0 = j then f i else 0 := by
  induction l using List.reverseRecOn with
  | nil => simp
  | append_singleton l k ih =>
    obtain ⟨hl', _, hne⟩ := List.nodup_append.1 hl
    have hsum : ∑ i ∈ Finset.range l.length, (if (l ++ [k]).getD i 0 = j then f i else 0) =
        ∑ i ∈ Finset.range l.length, if l.getD i 0 = j then f i else 0 := by
      refine Finset.sum_congr rfl ?_
      intro i hi
      rw [List.getD_append _ _ _ _ (Finset.mem_range.1 hi)]
    rw [List.zipIdx_append, List.foldl_append, ih hl', List.length_append, List.length_singleton,
      Finset.sum_range_succ, hsum]
    simp only [List.zipIdx_singleton, List.foldl_cons, List.foldl_nil]
    rw [show (l ++ [k]).getD l.length 0 = k by simp]
    by_cases hk : k = j
    · rw [if_pos hk, if_pos hk, Finset.sum_eq_zero, zero_add]
      · simp
      · intro i hi
        have hi' := Finset.mem_range.1 hi
        rw [List.getD_eq_getElem _ _ hi']
        exact if_neg fun h => hne _ (List.getElem_mem hi') k (by simp) (h.trans hk.symm)
    · rw [if_neg hk, if_neg hk, add_zero]

namespace Canonical

variable {d e : Dictionary K} {u : Nat → K}

theorem numVariables_lt (h : d.Canonical) : d.tableau.numVariables < d.tableau.numColumns :=
  Nat.sub_lt h.numColumns_pos Nat.one_pos

theorem row_lt (_ : d.Canonical) {i : Nat} (hi : i < d.tableau.numConstraints) :
    i + 1 < d.tableau.numRows := by
  unfold Tableau.numConstraints at hi
  omega

theorem basic_inj (h : d.Canonical) {i k : Nat} (hi : i < d.tableau.numConstraints)
    (hk : k < d.tableau.numConstraints) (heq : d.basic i = d.basic k) : i = k := by
  have h₁ := h.unit i hi (i + 1) (h.row_lt hi)
  rw [heq, h.unit k hk (i + 1) (h.row_lt hi), if_pos rfl] at h₁
  by_contra hne
  rw [if_neg (by omega)] at h₁
  exact zero_ne_one h₁

theorem nodup (h : d.Canonical) : d.basis.Nodup := by
  rw [List.nodup_iff_injective_get]
  intro i k hik
  have hi : i.val < d.tableau.numConstraints := h.length_basis ▸ i.isLt
  have hk : k.val < d.tableau.numConstraints := h.length_basis ▸ k.isLt
  refine Fin.ext (h.basic_inj hi hk ?_)
  simpa [basic] using hik

theorem mem_basis (h : d.Canonical) {j : Nat} :
    j ∈ d.basis ↔ ∃ i < d.tableau.numConstraints, d.basic i = j := by
  rw [List.mem_iff_getElem, ← h.length_basis]
  constructor
  · rintro ⟨i, hi, rfl⟩
    exact ⟨i, hi, List.getD_eq_getElem _ _ hi⟩
  · rintro ⟨i, hi, rfl⟩
    exact ⟨i, hi, (List.getD_eq_getElem _ _ hi).symm⟩

theorem basic_mem (h : d.Canonical) {i : Nat} (hi : i < d.tableau.numConstraints) :
    d.basic i ∈ d.basis :=
  h.mem_basis.2 ⟨i, hi, rfl⟩

theorem cost_zero (h : d.Canonical) {i : Nat} (hi : i < d.tableau.numConstraints) :
    d.tableau.entry 0 (d.basic i) = 0 := by
  rw [h.unit i hi 0 h.numRows_pos, if_neg (by omega)]

theorem rowForm_zero_spread (h : d.Canonical) (u : Nat → K) :
    d.tableau.rowForm 0 (d.spread u) = 0 := by
  rw [rowForm_spread d h.basic_lt]
  refine Finset.sum_eq_zero ?_
  intro i hi
  rw [h.cost_zero (Finset.mem_range.1 hi), zero_mul]

theorem rowForm_succ_spread (h : d.Canonical) {k : Nat} (hk : k < d.tableau.numConstraints)
    (u : Nat → K) : d.tableau.rowForm (k + 1) (d.spread u) = u k := by
  rw [rowForm_spread d h.basic_lt, Finset.sum_eq_single k]
  · rw [h.unit k hk _ (h.row_lt hk), if_pos rfl, one_mul]
  · intro i hi hik
    rw [h.unit i (Finset.mem_range.1 hi) _ (h.row_lt hk), if_neg (by omega), zero_mul]
  · intro hk'
    exact absurd (Finset.mem_range.2 hk) hk'

theorem spread_basic (h : d.Canonical) {i : Nat} (hi : i < d.tableau.numConstraints)
    (u : Nat → K) : d.spread u (d.basic i) = u i := by
  rw [spread, Finset.sum_eq_single i]
  · exact if_pos rfl
  · intro k hk hki
    exact if_neg fun heq => hki (h.basic_inj (Finset.mem_range.1 hk) hi heq)
  · intro hi'
    exact absurd (Finset.mem_range.2 hi) hi'

theorem spread_eq_zero (h : d.Canonical) {j : Nat} (hj : j ∉ d.basis) (u : Nat → K) :
    d.spread u j = 0 := by
  refine Finset.sum_eq_zero fun i hi => if_neg ?_
  rintro rfl
  exact hj (h.basic_mem (Finset.mem_range.1 hi))

theorem value_eq [LinearOrder K] (h : d.Canonical) (j : Nat) : d.value j = d.basicPoint j := by
  have hfold := foldl_zipIdx_eq_sum h.nodup (fun i => d.tableau.rhs (i + 1)) j
  rw [h.length_basis] at hfold
  exact hfold

/-! ## The basic point and the directions -/

theorem basicPoint_basic (h : d.Canonical) {i : Nat} (hi : i < d.tableau.numConstraints) :
    d.basicPoint (d.basic i) = d.tableau.rhs (i + 1) :=
  h.spread_basic hi _

theorem basicPoint_eq_zero (h : d.Canonical) {j : Nat} (hj : j ∉ d.basis) :
    d.basicPoint j = 0 :=
  h.spread_eq_zero hj _

theorem basic_of_mem_zipIdx (h : d.Canonical) {i j : Nat} (hj : (j, i) ∈ d.basis.zipIdx) :
    i < d.tableau.numConstraints ∧ d.basic i = j := by
  have hi := List.mk_mem_zipIdx_iff_getElem?.1 hj
  refine ⟨h.length_basis ▸ (List.getElem?_eq_some_iff.1 hi).1, ?_⟩
  rw [basic, List.getD_eq_getElem?_getD, hi, Option.getD_some]

theorem solves_basicPoint (h : d.Canonical) : d.tableau.Solves d.basicPoint := by
  intro i hi
  rw [Tableau.excess, basicPoint, h.rowForm_succ_spread hi, sub_self]

theorem cost_basicPoint [LinearOrder K] (h : d.Canonical) :
    d.tableau.excess 0 d.basicPoint = d.tableau.objectiveValue := by
  rw [Tableau.excess, basicPoint, h.rowForm_zero_spread, zero_sub]
  rfl

theorem rowForm_direction (h : d.Canonical) {c k : Nat} (hc : c < d.tableau.numVariables)
    (hk : k < d.tableau.numConstraints) : d.tableau.rowForm (k + 1) (d.direction c) = 0 := by
  unfold direction
  rw [Tableau.rowForm_sub, Tableau.rowForm_unit hc, h.rowForm_succ_spread hk, sub_self]

theorem cost_direction (h : d.Canonical) {c : Nat} (hc : c < d.tableau.numVariables) :
    d.tableau.rowForm 0 (d.direction c) = d.tableau.entry 0 c := by
  unfold direction
  rw [Tableau.rowForm_sub, Tableau.rowForm_unit hc, h.rowForm_zero_spread, sub_zero]

theorem solves_add_direction (h : d.Canonical) {c : Nat} (hc : c < d.tableau.numVariables)
    {z : Nat → K} (hz : d.tableau.Solves z) (a : K) :
    d.tableau.Solves fun j => z j + a * d.direction c j := by
  intro k hk
  rw [Tableau.excess_add_mul, hz k hk, h.rowForm_direction hc hk]
  ring

theorem not_mem_basis (h : d.Canonical) {c : Nat} (hc : d.tableau.entry 0 c ≠ 0) :
    c ∉ d.basis := by
  rw [h.mem_basis]
  rintro ⟨i, hi, rfl⟩
  exact hc (h.cost_zero hi)

theorem direction_basic (h : d.Canonical) {c i : Nat} (hi : i < d.tableau.numConstraints)
    (hc : c ∉ d.basis) : d.direction c (d.basic i) = -d.tableau.entry (i + 1) c := by
  have hne : d.basic i ≠ c := by
    rintro rfl
    exact hc (h.basic_mem hi)
  rw [direction, if_neg hne, h.spread_basic hi, zero_sub]

/-! ## The basis determines the dictionary -/

theorem eq_of_agree (h : d.Canonical) {z w : Nat → K} (hz : d.tableau.Solves z)
    (hw : d.tableau.Solves w)
    (hzw : ∀ j < d.tableau.numVariables, j ∉ d.basis → z j = w j) :
    ∀ j < d.tableau.numVariables, z j = w j := by
  -- the difference of the two has basic entries only
  have hdiff : ∀ j < d.tableau.numVariables,
      z j - w j = d.spread (fun i => z (d.basic i) - w (d.basic i)) j := by
    intro j hj
    by_cases hb : j ∈ d.basis
    · obtain ⟨k, hk, rfl⟩ := h.mem_basis.1 hb
      rw [h.spread_basic hk]
    · rw [h.spread_eq_zero hb, hzw j hj hb, sub_self]
  intro j hj
  by_cases hb : j ∈ d.basis
  · obtain ⟨i, hi, rfl⟩ := h.mem_basis.1 hb
    have hrow := h.rowForm_succ_spread hi fun i => z (d.basic i) - w (d.basic i)
    rw [← Tableau.rowForm_congr hdiff, Tableau.rowForm_sub] at hrow
    have hz' := hz i hi
    have hw' := hw i hi
    unfold Tableau.excess at hz' hw'
    linear_combination hz' - hw' - hrow
  · exact hzw j hj hb

section Same

variable (h : d.Canonical) (he : e.Canonical) (hbasis : e.basis ⊆ d.basis)

include h he hbasis

section Solutions

variable (heq : d.tableau.SameSolutions e.tableau)

include heq

theorem basicPoint_eq : ∀ j < d.tableau.numVariables, d.basicPoint j = e.basicPoint j := by
  refine h.eq_of_agree h.solves_basicPoint ((heq.solves_iff _).1 he.solves_basicPoint) ?_
  intro j _ hj
  rw [h.basicPoint_eq_zero hj, he.basicPoint_eq_zero fun hj' => hj (hbasis hj')]

theorem direction_eq {c : Nat} (hc : c < d.tableau.numVariables) :
    ∀ j < d.tableau.numVariables, d.direction c j = e.direction c j := by
  have hz := h.solves_add_direction hc h.solves_basicPoint 1
  have hw := he.solves_add_direction (heq.numVariables ▸ hc) he.solves_basicPoint 1
  have hagree := h.eq_of_agree hz ((heq.solves_iff _).1 hw) fun j hj hb => by
    rw [h.basicPoint_eq he hbasis heq j hj, direction, direction, h.spread_eq_zero hb,
      he.spread_eq_zero fun hb' => hb (hbasis hb')]
  intro j hj
  have hj' := hagree j hj
  rw [h.basicPoint_eq he hbasis heq j hj] at hj'
  linear_combination hj'

end Solutions

variable (heq : d.tableau.Equivalent e.tableau)

include heq

theorem objectiveValue_eq [LinearOrder K] :
    d.tableau.objectiveValue = e.tableau.objectiveValue := by
  rw [← h.cost_basicPoint, ← he.cost_basicPoint, ← heq.cost_eq _ h.solves_basicPoint]
  refine Tableau.excess_congr ?_
  intro j hj
  exact h.basicPoint_eq he hbasis heq.toSameSolutions j (heq.numVariables ▸ hj)

/-- Reduced costs are the costs of the directions. -/
theorem reducedCost_eq {c : Nat} (hc : c < d.tableau.numVariables) :
    d.tableau.entry 0 c = e.tableau.entry 0 c := by
  have hz := h.solves_add_direction hc h.solves_basicPoint 1
  have hcost := heq.cost_eq _ hz
  have hcost₀ := heq.cost_eq _ h.solves_basicPoint
  rw [Tableau.excess_add_mul, Tableau.excess_add_mul, hcost₀, h.cost_direction hc,
    Tableau.rowForm_congr fun j hj => h.direction_eq he hbasis heq.toSameSolutions hc j
      (heq.numVariables ▸ hj),
    he.cost_direction (heq.numVariables ▸ hc)] at hcost
  linear_combination -hcost

end Same

theorem entry_eq (h : d.Canonical) (he : e.Canonical) (hbasis : e.basis = d.basis)
    (heq : d.tableau.SameSolutions e.tableau) {i c : Nat} (hi : i < d.tableau.numConstraints)
    (hc : c < d.tableau.numVariables) :
    d.tableau.entry (i + 1) c = e.tableau.entry (i + 1) c := by
  have hi' : i < e.tableau.numConstraints := heq.numConstraints ▸ hi
  have hbasic : e.basic i = d.basic i := by rw [basic, basic, hbasis]
  by_cases hb : c ∈ d.basis
  · obtain ⟨k, hk, rfl⟩ := h.mem_basis.1 hb
    have hbk : e.basic k = d.basic k := by rw [basic, basic, hbasis]
    rw [h.unit k hk _ (h.row_lt hi), ← hbk,
      he.unit k (heq.numConstraints ▸ hk) _ (he.row_lt hi')]
  · have hdir := h.direction_eq he (fun _ hj => hbasis ▸ hj) heq hc _
      (h.basic_lt i hi)
    rw [h.direction_basic hi hb, ← hbasic, he.direction_basic hi' (hbasis ▸ hb)] at hdir
    linear_combination -hdir

theorem rhs_eq (h : d.Canonical) (he : e.Canonical) (hbasis : e.basis = d.basis)
    (heq : d.tableau.SameSolutions e.tableau) {i : Nat} (hi : i < d.tableau.numConstraints) :
    d.tableau.rhs (i + 1) = e.tableau.rhs (i + 1) := by
  have hbasic : e.basic i = d.basic i := by rw [basic, basic, hbasis]
  have hpoint := h.basicPoint_eq he (fun _ hj => hbasis ▸ hj) heq _
    (h.basic_lt i hi)
  rwa [h.basicPoint_basic hi, ← hbasic, he.basicPoint_basic (heq.numConstraints ▸ hi)] at hpoint

end Canonical
end Dictionary
end PenaltySimplex
