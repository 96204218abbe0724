import PenaltySimplex.Proofs.Certificate

/-!
# PenaltySimplex.Proofs.Outcome

What the pivot loop answers about the linear program of its tableau: to minimize the cost of a
nonnegative solution of the constraint rows.

At tolerance zero and from a unit basis with nonnegative right-hand sides, an optimal outcome
comes with a solution of least cost, and an unbounded one only if the cost has no lower bound
(`Tableau.solve_verdict`). Both are read off the last tableau and hold of the first one, as the
last dictionary is equivalent to it.
-/

namespace PenaltySimplex

open Linear

variable {K : Type} [Field K] [LinearOrder K]

namespace Tableau

/-- A nonnegative solution of the constraint rows. -/
structure Feasible (t : Tableau K) (z : Nat → K) : Prop where
  solves : t.Solves z
  nonneg : ∀ j < t.numVariables, 0 ≤ z j

/-- A nonnegative solution of least cost. -/
structure Optimal (t : Tableau K) (z : Nat → K) : Prop where
  feasible : t.Feasible z
  best : ∀ w, t.Feasible w → t.excess 0 z ≤ t.excess 0 w

/-- Nonnegative solutions have costs below every bound. -/
def IsUnbounded (t : Tableau K) : Prop :=
  ∀ bound, ∃ z, t.Feasible z ∧ t.excess 0 z < bound

end Tableau

variable [IsStrictOrderedRing K]

namespace Dictionary.IsDictionaryOf

variable {t : Tableau K} {d : Dictionary K} (h : d.IsDictionaryOf t)

include h

theorem feasible_basicPoint : t.Feasible d.basicPoint where
  solves := h.solves_basicPoint
  nonneg j _ := h.basicPoint_nonneg j

theorem optimal_basicPoint (hcost : ∀ j < t.numVariables, 0 ≤ d.tableau.entry 0 j) :
    t.Optimal d.basicPoint where
  feasible := h.feasible_basicPoint
  best w hw := by
    rw [h.cost_basicPoint]
    exact h.cost_le hcost hw.solves hw.nonneg

/-- The ray from the basic point in the direction of a column stays feasible. -/
theorem feasible_ray {c : Nat} (hc : c < t.numVariables) (hcost : d.tableau.entry 0 c ≠ 0)
    (hcolumn : ∀ i < t.numConstraints, d.tableau.entry (i + 1) c ≤ 0) {a : K} (ha : 0 ≤ a) :
    t.Feasible fun j => d.basicPoint j + a * d.direction c j where
  solves := h.solves_add_direction hc h.solves_basicPoint a
  nonneg j _ := by
    have hpoint := h.basicPoint_nonneg j
    have hray := mul_nonneg ha (h.direction_nonneg hcost hcolumn j)
    exact add_nonneg hpoint hray

theorem isUnbounded {c : Nat} (hc : c < t.numVariables) (hcost : d.tableau.entry 0 c < 0)
    (hcolumn : ∀ i < t.numConstraints, d.tableau.entry (i + 1) c ≤ 0) : t.IsUnbounded := by
  intro bound
  obtain ⟨a, ha, hlt⟩ := exists_add_mul_lt d.tableau.objectiveValue bound hcost
  refine ⟨_, h.feasible_ray hc hcost.ne hcolumn ha, ?_⟩
  rw [Tableau.excess_add_mul, h.cost_basicPoint, h.cost_direction hc]
  exact hlt

end Dictionary.IsDictionaryOf

namespace Tableau

variable {t : Tableau K}

/-- An optimal outcome shows a point that has the right-hand sides at the basic variables and
zeros elsewhere: it is a nonnegative solution of least cost, its cost is the objective value and
its first entries are the values. An unbounded outcome is right as well. -/
theorem solve_verdict (hbasis : t.HasUnitBasis)
    (hrhs : ∀ i < t.numConstraints, 0 ≤ t.rhs (i + 1)) (cap : Nat) :
    ∃ o, t.solve 0 cap = .ok o ∧
      (o.status = .optimal → ∃ z : Nat → K,
        (∀ i j, o.basis[i]? = some j → z j = o.tableau.rhs (i + 1)) ∧
        (∀ j, j ∉ o.basis → z j = 0) ∧
        t.Optimal z ∧ t.excess 0 z = o.objectiveValue ∧
        o.values = some (point t.numStructural z)) ∧
      (o.status = .unbounded → t.IsUnbounded) := by
  have hres := t.resolvedBy_zero
  have hd := isDictionaryOf_final hres hbasis hrhs cap
  refine ⟨_, solve_eq_ok hbasis cap, ?_, ?_⟩
  · intro hstatus
    have hstop := Outcome.stop_of_optimal hstatus
    refine ⟨(t.solveFrom 0 cap).final.basicPoint, ?_, ?_, ?_, hd.cost_basicPoint, ?_⟩
    · intro i j hj
      obtain ⟨hi, rfl⟩ := hd.canonical.basic_of_mem_zipIdx (List.mk_mem_zipIdx_iff_getElem?.2 hj)
      exact hd.canonical.basicPoint_basic hi
    · intro j hj
      exact hd.canonical.basicPoint_eq_zero hj
    · exact hd.optimal_basicPoint (reducedCost_nonneg_of_stop hres hbasis hrhs hstop)
    · rw [Outcome.values, hstop, hd.values_eq]
  · intro hstatus
    obtain ⟨c, hstop⟩ := Outcome.stop_of_unbounded hstatus
    obtain ⟨hc, hcost, hcolumn⟩ := column_nonpos_of_stop hres hbasis hrhs hstop
    exact hd.isUnbounded hc hcost hcolumn

/-- The second product uses the resources in the first tableau and makes them in the other. -/
theorem solve_verdict_twoResources :
    ((twoResources 1).HasUnitBasis ∧
      (∀ i < (twoResources 1).numConstraints, 0 ≤ (twoResources 1).rhs (i + 1)) ∧
      ∃ o, (twoResources 1).solve 0 2 = .ok o ∧ o.status = .optimal ∧
        ∃ z : Nat → ℚ, (twoResources 1).Optimal z ∧
          (twoResources 1).excess 0 z = o.objectiveValue ∧ o.values = some (point 2 z)) ∧
    ((twoResources (-1)).HasUnitBasis ∧
      (∀ i < (twoResources (-1)).numConstraints, 0 ≤ (twoResources (-1)).rhs (i + 1)) ∧
      ∃ o, (twoResources (-1)).solve 0 2 = .ok o ∧ o.status = .unbounded ∧
        (twoResources (-1)).IsUnbounded) := by
  constructor
  · have hbasis : (twoResources 1).HasUnitBasis := ⟨by decide, by decide, by decide +kernel⟩
    have hrhs : ∀ i < (twoResources 1).numConstraints, 0 ≤ (twoResources 1).rhs (i + 1) := by
      decide +kernel
    obtain ⟨o, ho, hoptimal, _⟩ := solve_verdict hbasis hrhs 2
    have hstatus : o.status = .optimal := by
      rw [(solve_eq_ok_iff.1 ho).2]
      decide +kernel
    obtain ⟨z, _, _, hz⟩ := hoptimal hstatus
    exact ⟨hbasis, hrhs, o, ho, hstatus, z, hz⟩
  · have hbasis : (twoResources (-1)).HasUnitBasis := ⟨by decide, by decide, by decide +kernel⟩
    have hrhs : ∀ i < (twoResources (-1)).numConstraints,
        0 ≤ (twoResources (-1)).rhs (i + 1) := by
      decide +kernel
    obtain ⟨o, ho, _, hunbounded⟩ := solve_verdict hbasis hrhs 2
    have hstatus : o.status = .unbounded := by
      rw [(solve_eq_ok_iff.1 ho).2]
      decide +kernel
    exact ⟨hbasis, hrhs, o, ho, hstatus, hunbounded hstatus⟩

end Tableau
end PenaltySimplex
