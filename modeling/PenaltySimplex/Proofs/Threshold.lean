import PenaltySimplex.Proofs.Penalty
import PenaltySimplex.Proofs.Termination

/-!
# PenaltySimplex.Proofs.Threshold

A penalty that is large enough outweighs what the artificial variables can gain
(`eventually_outweighs`). Basic points and directions do not depend on the penalty and there are
finitely many of them, so one bound serves every dictionary of the starting tableau.

Above the bound a final dictionary has artificial variables zero if there is a feasible point
(`Outweighs.artificialTotal_nonpos`), and an unbounded column is a direction of the problem
itself (`Outweighs.artificialTotal_direction`, `improves_direction`). As runs end, a problem whose objective has no bound has
such a direction (`isUnbounded_iff`).
-/

namespace PenaltySimplex
namespace StandardForm

open Filter Linear

variable {K : Type} [Field K] [LinearOrder K] {p : StandardForm K} {penalty v : K}

/-- If `z` uses artificial variables at all, its penalized cost is above `v`. -/
def Penalizes (p : StandardForm K) (penalty v : K) (z : Nat → K) : Prop :=
  0 < p.artificialTotal z →
    v < form p.objective (point p.numColumns z) + penalty * p.artificialTotal z

/-- The penalty is above `v` at the basic point of `d` and above zero in its directions. -/
structure Outweighs (p : StandardForm K) (penalty v : K) (d : Dictionary K) : Prop where
  basicPoint : p.Penalizes penalty v d.basicPoint
  direction : ∀ c < p.numColumns + p.numRows, p.Penalizes penalty 0 (d.direction c)

theorem penalizes_congr {z w : Nat → K} (h : ∀ j < p.numColumns + p.numRows, z j = w j) :
    p.Penalizes penalty v z ↔ p.Penalizes penalty v w := by
  have htotal : p.artificialTotal z = p.artificialTotal w :=
    Finset.sum_congr rfl fun i hi => h _ (by have := Finset.mem_range.1 hi; omega)
  have hpoint : point p.numColumns z = point p.numColumns w :=
    List.map_congr_left fun j hj => h j (by have := List.mem_range.1 hj; omega)
  rw [Penalizes, Penalizes, htotal, hpoint]

variable [IsStrictOrderedRing K]

theorem eventually_penalizes (p : StandardForm K) (v : K) (z : Nat → K) :
    ∀ᶠ penalty in atTop, p.Penalizes penalty v z := by
  refine eventually_imp_distrib_left.2 ?_
  intro hpos
  filter_upwards [eventually_gt_atTop
    ((v - form p.objective (point p.numColumns z)) / p.artificialTotal z)] with penalty hlt
  have hprod := (div_lt_iff₀ hpos).1 hlt
  linarith

theorem eventually_outweighs (p : StandardForm K) (v : K) :
    ∀ᶠ penalty in atTop, ∀ d : Dictionary K, d.IsDictionaryOf (p.startingTableau penalty) →
      p.Outweighs penalty v d := by
  refine eventually_forall_dictionary (t := fun penalty => p.startingTableau penalty)
    (fun _ => rfl) (fun _ => rfl) ?_
  intro penalty' e he
  have hdirections : ∀ᶠ penalty in atTop, ∀ c ∈ Finset.range (p.numColumns + p.numRows),
      p.Penalizes penalty 0 (e.direction c) :=
    (eventually_all_finset _).2 fun c _ => p.eventually_penalizes 0 (e.direction c)
  filter_upwards [p.eventually_penalizes v e.basicPoint, hdirections]
    with penalty hpoint hdirection d hd hbasis
  -- two dictionaries with one basis have the same basic point and directions
  have hsame : d.tableau.SameSolutions e.tableau :=
    (hd.equivalent.toSameSolutions.symm.trans
      (p.sameSolutions_startingTableau penalty penalty')).trans he.equivalent.toSameSolutions
  have hvariables : d.tableau.numVariables = p.numColumns + p.numRows :=
    hd.equivalent.numVariables
  have hsub : e.basis ⊆ d.basis := fun j hj => hbasis ▸ hj
  constructor
  · refine (penalizes_congr ?_).2 hpoint
    intro j hj
    exact hd.canonical.basicPoint_eq he.canonical hsub hsame j (hvariables ▸ hj)
  · intro c hc
    refine (penalizes_congr ?_).2 (hdirection c (Finset.mem_range.2 hc))
    intro j hj
    exact hd.canonical.direction_eq he.canonical hsub hsame (hvariables ▸ hc) j (hvariables ▸ hj)

/-! ## Final dictionaries -/

section Final

variable {d : Dictionary K} (hd : d.IsDictionaryOf (p.startingTableau penalty))

include hd

theorem objectiveValue_le (hcost : ∀ j < p.numColumns + p.numRows, 0 ≤ d.tableau.entry 0 j)
    {x : List K} (hx : p.Feasible x) : d.tableau.objectiveValue ≤ form p.objective x := by
  have hsolves := hx.toSolves.solves_startingTableau penalty
  have hleast := hd.cost_le hcost hsolves fun j _ => getD_nonneg hx.nonneg j
  rwa [cost_startingTableau hsolves, point_getD hx.length_eq, artificialTotal_getD hx.length_eq,
    mul_zero, add_zero] at hleast

theorem objectiveValue_eq : d.tableau.objectiveValue =
    form p.objective (point p.numColumns d.basicPoint) +
      penalty * p.artificialTotal d.basicPoint := by
  rw [← cost_startingTableau hd.solves_basicPoint, hd.cost_basicPoint]

theorem Outweighs.artificialTotal_nonpos (h : p.Outweighs penalty v d)
    (hcost : ∀ j < p.numColumns + p.numRows, 0 ≤ d.tableau.entry 0 j) {x : List K}
    (hx : p.Feasible x) (hv : form p.objective x ≤ v) :
    p.artificialTotal d.basicPoint ≤ 0 := by
  by_contra hpos
  have houtweighs := h.basicPoint (not_le.1 hpos)
  rw [← objectiveValue_eq hd] at houtweighs
  exact absurd ((objectiveValue_le hd hcost hx).trans hv) (not_le.2 houtweighs)

theorem feasible_basicPoint (h : p.artificialTotal d.basicPoint ≤ 0) :
    p.Feasible (point p.numColumns d.basicPoint) where
  toSolves := solves_point hd.solves_basicPoint (artificial_eq_zero hd.basicPoint_nonneg h)
  nonneg v hv := by
    obtain ⟨j, _, rfl⟩ := mem_point.1 hv
    exact hd.basicPoint_nonneg j

section Column

variable {c : Nat} (hc : c < p.numColumns + p.numRows) (hcost : d.tableau.entry 0 c < 0)
  (hcolumn : ∀ i < p.numRows, d.tableau.entry (i + 1) c ≤ 0)

include hc hcost

omit [IsStrictOrderedRing K] in
theorem cost_direction_neg : form p.objective (point p.numColumns (d.direction c)) +
    penalty * p.artificialTotal (d.direction c) < 0 := by
  have hlevel : ∀ i < p.numRows,
      (p.startingTableau penalty).rowForm (i + 1) (d.direction c) = 0 :=
    fun i hi => hd.rowForm_direction hc hi
  rw [← cost_level hlevel, hd.cost_direction hc]
  exact hcost

omit [IsStrictOrderedRing K] in
theorem Outweighs.artificialTotal_direction (h : p.Outweighs penalty v d) :
    p.artificialTotal (d.direction c) ≤ 0 := by
  by_contra hpos
  exact lt_asymm (h.direction c hc (not_le.1 hpos)) (cost_direction_neg hd hc hcost)

include hcolumn

/-- An unbounded column that uses no artificial variable is a direction of the problem itself. -/
theorem improves_direction (htotal : p.artificialTotal (d.direction c) ≤ 0) :
    p.Improves (point p.numColumns (d.direction c)) := by
  have hnonneg := hd.direction_nonneg hcost.ne hcolumn
  have hzero := artificial_eq_zero hnonneg htotal
  have hnone : p.artificialTotal (d.direction c) = 0 :=
    Finset.sum_eq_zero fun i hi => hzero i (Finset.mem_range.1 hi)
  have hfalls := cost_direction_neg hd hc hcost
  rw [hnone, mul_zero, add_zero] at hfalls
  refine ⟨length_point _ _, ?_, ?_, hfalls⟩
  · intro v hv
    obtain ⟨j, _, rfl⟩ := mem_point.1 hv
    exact hnonneg j
  · exact form_eq_zero_of_level (fun i hi => hd.rowForm_direction hc hi) hzero

end Column

end Final

theorem IsUnbounded.exists_improves (h : p.IsUnbounded) : ∃ y, p.Improves y := by
  obtain ⟨penalty, houtweighs⟩ := (p.eventually_outweighs 0).exists
  obtain ⟨d, hd, hfinal⟩ := Tableau.exists_final
    (p.hasUnitBasis_startingTableau penalty) (p.rhs_startingTableau_nonneg penalty)
  rcases hfinal with hcost | ⟨c, hc, hcost, hcolumn⟩
  · obtain ⟨x, hx, hlt⟩ := h d.tableau.objectiveValue
    exact absurd (objectiveValue_le hd hcost hx) (not_le.2 hlt)
  · have htotal := (houtweighs d hd).artificialTotal_direction hd hc hcost
    exact ⟨_, improves_direction hd hc hcost hcolumn htotal⟩

theorem isUnbounded_iff : p.IsUnbounded ↔ p.IsFeasible ∧ ∃ y, p.Improves y := by
  constructor
  · intro h
    exact ⟨h.isFeasible, h.exists_improves⟩
  · rintro ⟨⟨x, hx⟩, y, hy⟩
    exact isUnbounded_of_improves hx hy

end StandardForm
end PenaltySimplex
