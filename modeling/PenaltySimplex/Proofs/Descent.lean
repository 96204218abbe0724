import PenaltySimplex.Proofs.Certificate

/-!
# PenaltySimplex.Proofs.Descent

The pivot loop goes downhill through feasible dictionaries. A column enters because its reduced
cost is negative, and the smallest ratio of a feasible dictionary is nonnegative, so one step does
not raise the objective value (`Dictionary.IsDictionaryOf.objectiveValue_next_le`). A longer run
only makes more steps (`Tableau.antitone_objectiveValue`).
-/

namespace PenaltySimplex

variable {K : Type} [Field K] [LinearOrder K] [IsStrictOrderedRing K]

theorem Dictionary.IsDictionaryOf.objectiveValue_next_le {eps : K} {t : Tableau K}
    {d : Dictionary K} (hd : d.IsDictionaryOf t) (hres : d.Resolves eps) :
    (d.next eps).tableau.objectiveValue ≤ d.tableau.objectiveValue := by
  by_cases hmoves : d.Moves eps
  · obtain ⟨row, c, hchoose⟩ := hmoves
    obtain ⟨r, rfl, hpivot⟩ := hres.isPivot_of_choose hchoose
    rw [next_of_choose hchoose]
    exact hd.objectiveValue_exchange_le hpivot
  · rw [next_of_not_moves hmoves]

namespace Tableau

variable {eps : K} {t : Tableau K}

theorem antitone_objectiveValue (hres : t.ResolvedBy eps) (hbasis : t.HasUnitBasis)
    (hrhs : ∀ i < t.numConstraints, 0 ≤ t.rhs (i + 1)) :
    Antitone fun cap => (t.solveFrom eps cap).objectiveValue := by
  refine antitone_nat_of_succ_le fun cap => ?_
  have hd := isDictionaryOf_final hres hbasis hrhs cap
  show (t.solveFrom eps (cap + 1)).final.tableau.objectiveValue ≤ _
  rw [final_solveFrom_succ]
  exact hd.objectiveValue_next_le (hres _ hd)

/-- From a unit basis with nonnegative right-hand sides the right-hand sides stay nonnegative, and
a larger cap leads to an objective value at most as large. -/
theorem solve_descends (hbasis : t.HasUnitBasis)
    (hrhs : ∀ i < t.numConstraints, 0 ≤ t.rhs (i + 1)) {j k : Nat} (hle : j ≤ k) :
    ∃ before after, t.solve 0 j = .ok before ∧ t.solve 0 k = .ok after ∧
      (∀ i < t.numConstraints, 0 ≤ after.tableau.rhs (i + 1)) ∧
      after.objectiveValue ≤ before.objectiveValue := by
  have hd := isDictionaryOf_final t.resolvedBy_zero hbasis hrhs k
  refine ⟨_, _, solve_eq_ok hbasis j, solve_eq_ok hbasis k, ?_, ?_⟩
  · intro i hi
    exact hd.feasible i (hd.equivalent.numConstraints ▸ hi)
  · exact antitone_objectiveValue t.resolvedBy_zero hbasis hrhs hle

/-- The best plan for two products takes two exchanges; the second one is an improvement. -/
theorem solve_descends_twoResources : (twoResources 1).HasUnitBasis ∧
    (∀ i < (twoResources 1).numConstraints, 0 ≤ (twoResources 1).rhs (i + 1)) ∧ 1 ≤ 2 ∧
    ∃ before after, (twoResources 1).solve 0 1 = .ok before ∧
      (twoResources 1).solve 0 2 = .ok after ∧
      (∀ i < (twoResources 1).numConstraints, 0 ≤ after.tableau.rhs (i + 1)) ∧
      after.objectiveValue ≤ before.objectiveValue ∧
      before.objectiveValue = -12 ∧ after.objectiveValue = -14 := by
  have hbasis : (twoResources 1).HasUnitBasis := ⟨by decide, by decide, by decide +kernel⟩
  have hrhs : ∀ i < (twoResources 1).numConstraints, 0 ≤ (twoResources 1).rhs (i + 1) := by
    decide +kernel
  obtain ⟨before, after, hbefore, hafter, hnonneg, hle⟩ :=
    solve_descends hbasis hrhs (by decide : 1 ≤ 2)
  refine ⟨hbasis, hrhs, by decide, before, after, hbefore, hafter, hnonneg, hle, ?_, ?_⟩
  · rw [(solve_eq_ok_iff.1 hbefore).2]
    decide +kernel
  · rw [(solve_eq_ok_iff.1 hafter).2]
    decide +kernel

end Tableau
end PenaltySimplex
