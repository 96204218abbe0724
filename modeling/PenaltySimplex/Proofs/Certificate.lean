import PenaltySimplex.Proofs.Invariant

/-!
# PenaltySimplex.Proofs.Certificate

What the final dictionary of a run certifies about the tableau that the run started from.

* With nonnegative reduced costs its basic point is a nonnegative solution of least cost
  (`IsDictionaryOf.cost_le`).
* The direction of an improving column without positive entries is nonnegative, keeps every
  equation and lowers the cost (`IsDictionaryOf.direction_nonneg`, `rowForm_direction`,
  `cost_direction`).

`Tableau.isDictionaryOf_final`, `Tableau.reducedCost_nonneg_of_stop` and
`Tableau.column_nonpos_of_stop` say that a run ends in such a dictionary when the tolerance
resolves every dictionary of the tableau.
-/

namespace PenaltySimplex

variable {K : Type} [Field K] [LinearOrder K] [IsStrictOrderedRing K]

namespace Dictionary.IsDictionaryOf

variable {t : Tableau K} {d : Dictionary K} (h : d.IsDictionaryOf t)

include h

theorem basicPoint_nonneg (j : Nat) : 0 ≤ d.basicPoint j := by
  rw [basicPoint, spread]
  refine Finset.sum_nonneg ?_
  intro i hi
  split_ifs
  · exact h.feasible i (Finset.mem_range.1 hi)
  · exact le_rfl

omit [IsStrictOrderedRing K] in
theorem values_eq : d.values = Linear.point t.numStructural d.basicPoint := by
  have hn : d.tableau.numStructural = t.numStructural := by
    rw [Tableau.numStructural, h.equivalent.numVariables, h.equivalent.numConstraints,
      Tableau.numStructural]
  rw [Dictionary.values, hn, Linear.point]
  exact List.map_congr_left fun j _ => h.canonical.value_eq j

omit [IsStrictOrderedRing K] in
theorem solves_basicPoint : t.Solves d.basicPoint :=
  (h.equivalent.solves_iff _).1 h.canonical.solves_basicPoint

omit [IsStrictOrderedRing K] in
theorem cost_basicPoint : t.excess 0 d.basicPoint = d.tableau.objectiveValue := by
  rw [← h.canonical.cost_basicPoint, h.equivalent.cost_eq _ h.solves_basicPoint]

theorem cost_le (hcost : ∀ j < t.numVariables, 0 ≤ d.tableau.entry 0 j) {z : Nat → K}
    (hz : t.Solves z) (hz₀ : ∀ j < t.numVariables, 0 ≤ z j) :
    d.tableau.objectiveValue ≤ t.excess 0 z := by
  have hform : 0 ≤ d.tableau.rowForm 0 z := by
    refine Finset.sum_nonneg ?_
    intro j hj
    rw [Finset.mem_range, h.equivalent.numVariables] at hj
    exact mul_nonneg (hcost j hj) (hz₀ j hj)
  rw [← h.equivalent.cost_eq z hz]
  show -d.tableau.rhs 0 ≤ d.tableau.rowForm 0 z - d.tableau.rhs 0
  linarith

section Direction

variable {c : Nat} (hc : c < t.numVariables)

include hc

omit [IsStrictOrderedRing K] in
theorem solves_add_direction {z : Nat → K} (hz : t.Solves z) (a : K) :
    t.Solves fun j => z j + a * d.direction c j := by
  rw [← h.equivalent.solves_iff] at hz ⊢
  exact h.canonical.solves_add_direction (h.equivalent.numVariables ▸ hc) hz a

omit [IsStrictOrderedRing K] in
theorem rowForm_direction {i : Nat} (hi : i < t.numConstraints) :
    t.rowForm (i + 1) (d.direction c) = 0 := by
  have hmoved := h.solves_add_direction hc h.solves_basicPoint 1 i hi
  rw [Tableau.excess_add_mul, h.solves_basicPoint i hi] at hmoved
  linear_combination hmoved

omit [IsStrictOrderedRing K] in
theorem cost_direction : t.rowForm 0 (d.direction c) = d.tableau.entry 0 c := by
  have hmoved := h.equivalent.cost_eq _ (h.solves_add_direction hc h.solves_basicPoint 1)
  rw [Tableau.excess_add_mul, Tableau.excess_add_mul,
    h.equivalent.cost_eq _ h.solves_basicPoint,
    h.canonical.cost_direction (h.equivalent.numVariables ▸ hc)] at hmoved
  linear_combination -hmoved

omit hc in
theorem direction_nonneg (hcost : d.tableau.entry 0 c ≠ 0)
    (hcolumn : ∀ i < t.numConstraints, d.tableau.entry (i + 1) c ≤ 0) (j : Nat) :
    0 ≤ d.direction c j := by
  have hc := h.canonical.not_mem_basis hcost
  by_cases hj : j ∈ d.basis
  · obtain ⟨i, hi, rfl⟩ := h.canonical.mem_basis.1 hj
    rw [h.canonical.direction_basic hi hc, neg_nonneg]
    exact hcolumn i (h.equivalent.numConstraints ▸ hi)
  · rw [direction, h.canonical.spread_eq_zero hj, sub_zero]
    split_ifs
    · exact zero_le_one
    · exact le_rfl

end Direction

end Dictionary.IsDictionaryOf

namespace Tableau

/-- The tolerance resolves every dictionary that a run on the tableau can meet. -/
def ResolvedBy (eps : K) (t : Tableau K) : Prop :=
  ∀ d : Dictionary K, d.IsDictionaryOf t → d.Resolves eps

omit [IsStrictOrderedRing K] in
theorem resolvedBy_zero (t : Tableau K) : t.ResolvedBy 0 := fun d _ => d.resolves_zero

section Final

variable {eps : K} {t : Tableau K} (hres : t.ResolvedBy eps)

include hres

theorem isDictionaryOf_exchange {d : Dictionary K} {row column : Nat} (hd : d.IsDictionaryOf t)
    (hchoose : d.choose eps = .exchange row column) :
    (d.exchange row column).IsDictionaryOf t := by
  obtain ⟨r, rfl, hpivot⟩ := (hres d hd).isPivot_of_choose hchoose
  exact hd.exchange hpivot

variable (hbasis : t.HasUnitBasis) (hrhs : ∀ i < t.numConstraints, 0 ≤ t.rhs (i + 1))

include hbasis hrhs

theorem isDictionaryOf_iterate (k : Nat) :
    ((Dictionary.next eps)^[k] (Dictionary.start t)).IsDictionaryOf t := by
  refine Dictionary.iterate_induction (hbasis.isDictionaryOf_start hrhs) ?_ k
  intro d row column hd hchoose
  exact isDictionaryOf_exchange hres hd hchoose

theorem isDictionaryOf_final (cap : Nat) : (t.solveFrom eps cap).final.IsDictionaryOf t := by
  refine final_induction (hbasis.isDictionaryOf_start hrhs) ?_
  intro d row column hd hchoose
  exact isDictionaryOf_exchange hres hd hchoose

theorem reducedCost_nonneg_of_stop {cap : Nat} (h : (t.solveFrom eps cap).stop = .optimal) :
    ∀ j < t.numVariables, 0 ≤ (t.solveFrom eps cap).final.tableau.entry 0 j := by
  have hd := isDictionaryOf_final hres hbasis hrhs cap
  have hexplains := (endsAfter_solveFrom eps cap t).explains
  rw [h] at hexplains
  rw [← hd.equivalent.numVariables]
  exact (hres _ hd).reducedCost_nonneg hexplains

theorem column_nonpos_of_stop {cap c : Nat} (h : (t.solveFrom eps cap).stop = .unbounded c) :
    c < t.numVariables ∧ (t.solveFrom eps cap).final.tableau.entry 0 c < 0 ∧
      ∀ i < t.numConstraints, (t.solveFrom eps cap).final.tableau.entry (i + 1) c ≤ 0 := by
  have hd := isDictionaryOf_final hres hbasis hrhs cap
  have hexplains := (endsAfter_solveFrom eps cap t).explains
  rw [h] at hexplains
  rw [← hd.equivalent.numVariables, ← hd.equivalent.numConstraints]
  exact (hres _ hd).unbounded_of_choose hexplains

end Final

end Tableau
end PenaltySimplex
