import PenaltySimplex.Proofs.Choice
import PenaltySimplex.Proofs.Run

/-!
# PenaltySimplex.Proofs.Invariant

What the pivot loop keeps under every nonnegative tolerance, wherever it stops.

A chosen exchange takes place in a constraint row, at an entry above the tolerance
(`Dictionary.place_of_choose`). So it divides by a positive number, and

* the tableau stays equivalent to the one that the run started from, canonical or not
  (`Tableau.solve_equivalent`);
* a canonical dictionary stays canonical, and the entering column is not basic, as its reduced
  cost is negative and that of a basic column is zero (`Tableau.solve_canonical`).
-/

namespace PenaltySimplex

variable {K : Type} [Field K] [LinearOrder K] [IsStrictOrderedRing K]

namespace Dictionary

section Choose

variable {eps : K} (heps : 0 ≤ eps) {d : Dictionary K} {row c : Nat}
  (hchoose : d.choose eps = .exchange row c)

include heps hchoose

theorem place_of_choose : c < d.tableau.numVariables ∧ d.tableau.entry 0 c < 0 ∧
    ∃ r < d.tableau.numConstraints, row = r + 1 ∧ 0 < d.tableau.entry (r + 1) c := by
  obtain ⟨hentering, hleaving⟩ := choose_eq_exchange hchoose
  obtain ⟨hc, hcost, _⟩ := Tableau.entering?_eq_some hentering
  obtain ⟨r, hr, hrow, hentry⟩ := leaving?_eq_some hleaving
  exact ⟨hc, hcost.trans_le (neg_nonpos.2 heps), r, hr, hrow, heps.trans_lt hentry⟩

theorem equivalent_exchange : d.tableau.Equivalent (d.exchange row c).tableau := by
  obtain ⟨hc, _, r, hr, rfl, hentry⟩ := place_of_choose heps hchoose
  exact .pivot hr hc hentry.ne'

theorem Canonical.exchange_of_choose (hd : d.Canonical) : (d.exchange row c).Canonical := by
  obtain ⟨hc, _, r, hr, rfl, hentry⟩ := place_of_choose heps hchoose
  exact hd.exchange hc hr hentry.ne'

theorem Canonical.not_mem_of_choose (hd : d.Canonical) : c ∉ d.basis := by
  obtain ⟨_, hcost, _⟩ := place_of_choose heps hchoose
  exact hd.not_mem_basis hcost.ne

end Choose

end Dictionary

namespace Tableau

variable {eps : K} {t : Tableau K}

theorem equivalent_final (heps : 0 ≤ eps) (cap : Nat) :
    t.Equivalent (t.solveFrom eps cap).final.tableau := by
  refine final_induction (P := fun d => t.Equivalent d.tableau) (.refl t) ?_
  intro d row column hd hchoose
  exact hd.trans (Dictionary.equivalent_exchange heps hchoose)

theorem canonical_final (hbasis : t.HasUnitBasis) (heps : 0 ≤ eps) (cap : Nat) :
    (t.solveFrom eps cap).final.Canonical := by
  refine final_induction hbasis.canonical_start ?_
  intro d row column hd hchoose
  exact hd.exchange_of_choose heps hchoose

omit [IsStrictOrderedRing K] in
theorem solve_eq_ok (hbasis : t.HasUnitBasis) (cap : Nat) :
    t.solve eps cap = .ok (t.solveFrom eps cap) := by
  have hlt := hbasis.numConstraints_lt
  refine solve_eq_ok_iff.2 ⟨⟨hbasis.numRows_pos, Nat.zero_lt_of_lt hlt, ?_⟩, rfl⟩
  unfold numVariables
  omega

/-- A tableau with enough rows and columns gets an outcome, and the outcome's tableau has the
same shape, the same solutions and the same cost of each. -/
theorem solve_equivalent (heps : 0 ≤ eps) (t : Tableau K) (cap : Nat) :
    ((∃ o, t.solve eps cap = .ok o) ↔
      0 < t.numRows ∧ 0 < t.numColumns ∧ t.numConstraints ≤ t.numVariables) ∧
    ∀ o, t.solve eps cap = .ok o → t.Equivalent o.tableau := by
  constructor
  · constructor
    · rintro ⟨o, ho⟩
      exact (solve_eq_ok_iff.1 ho).1
    · intro hshape
      exact ⟨_, solve_eq_ok_iff.2 ⟨hshape, rfl⟩⟩
  · intro o ho
    rw [(solve_eq_ok_iff.1 ho).2]
    exact equivalent_final heps cap

/-- Two products made from two resources; with `a = -1` the second one makes them too. -/
def twoResources (a : ℚ) : Tableau ℚ :=
  ofFn 3 5 fun i j => ([
    [-3, -5, 0, 0, 0],
    [1, a, 1, 0, 4],
    [1, 3 * a, 0, 1, 6]].getD i []).getD j 0

theorem solve_equivalent_pivoted : (0 : ℚ) ≤ 1 / 100 ∧
    ¬ ((twoResources 1).pivot 2 1).HasUnitBasis ∧
    ∃ o, ((twoResources 1).pivot 2 1).solve (1 / 100) 1 = .ok o ∧ o.iterations = 1 ∧
      ((twoResources 1).pivot 2 1).Equivalent o.tableau := by
  have heps : (0 : ℚ) ≤ 1 / 100 := by norm_num
  obtain ⟨haccepted, hequivalent⟩ := solve_equivalent heps ((twoResources 1).pivot 2 1) 1
  obtain ⟨o, ho⟩ := haccepted.2 (by decide)
  have hiterations : o.iterations = 1 := by
    rw [(solve_eq_ok_iff.1 ho).2]
    decide +kernel
  refine ⟨heps, ?_, o, ho, hiterations, hequivalent o ho⟩
  intro hbasis
  exact absurd (hbasis.unit 1 (by decide) 1 (by decide)) (by decide +kernel)

/-- From a unit basis the basic variables are distinct and the columns of an outcome's basis are
the unit vectors of their rows, with reduced cost zero. Exchange `k` of the run is made where a
cap of `k` stops it, and its entering column is not basic there. -/
theorem solve_canonical (hbasis : t.HasUnitBasis) (heps : 0 ≤ eps) (cap : Nat) :
    ∃ o, t.solve eps cap = .ok o ∧
      o.tableau.numRows = t.numRows ∧ o.tableau.numColumns = t.numColumns ∧
      o.basis.length = t.numConstraints ∧ o.basis.Nodup ∧
      (∀ j ∈ o.basis, j < t.numVariables) ∧
      (∀ i j, o.basis[i]? = some j → ∀ k < t.numRows,
        o.tableau.entry k j = if k = i + 1 then 1 else 0) ∧
      ∀ k e, o.history.reverse[k]? = some e → ∃ before, t.solve eps k = .ok before ∧
        before.iterations = k ∧ before.final.choose eps = .exchange e.row e.entering ∧
        e.entering ∉ before.basis := by
  have hd := canonical_final hbasis heps cap
  have heq := equivalent_final heps cap (t := t)
  refine ⟨_, solve_eq_ok hbasis cap, heq.numRows, heq.numColumns, ?_, hd.nodup, ?_, ?_, ?_⟩
  · exact hd.length_basis.trans heq.numConstraints
  · intro j hj
    obtain ⟨i, hi, rfl⟩ := hd.mem_basis.1 hj
    exact heq.numVariables ▸ hd.basic_lt i hi
  · intro i j hj k hk
    obtain ⟨hi, rfl⟩ := hd.basic_of_mem_zipIdx (List.mk_mem_zipIdx_iff_getElem?.2 hj)
    exact hd.unit i hi k (heq.numRows ▸ hk)
  · intro k e he
    obtain ⟨hk, hchoose⟩ := choose_of_history he
    refine ⟨_, solve_eq_ok hbasis k, hk, hchoose, ?_⟩
    exact (canonical_final hbasis heps k).not_mem_of_choose heps hchoose

theorem solve_canonical_twoResources : (twoResources 1).HasUnitBasis ∧ (0 : ℚ) ≤ 1 / 100 ∧
    ∃ o, (twoResources 1).solve (1 / 100) 1 = .ok o ∧ o.status = .iterationLimit ∧
      o.basis = [0, 3] ∧
      (∀ i j, o.basis[i]? = some j → ∀ k < 3, o.tableau.entry k j = if k = i + 1 then 1 else 0) ∧
      ∀ k e, o.history.reverse[k]? = some e → ∃ before,
        (twoResources 1).solve (1 / 100) k = .ok before ∧ before.iterations = k ∧
        before.final.choose (1 / 100) = .exchange e.row e.entering ∧
        e.entering ∉ before.basis := by
  have hbasis : (twoResources 1).HasUnitBasis := ⟨by decide, by decide, by decide +kernel⟩
  have heps : (0 : ℚ) ≤ 1 / 100 := by norm_num
  obtain ⟨o, ho, _, _, _, _, _, hunit, hfresh⟩ := solve_canonical hbasis heps 1
  have ho' := (solve_eq_ok_iff.1 ho).2
  have hstatus : o.status = .iterationLimit := by
    rw [ho']
    decide +kernel
  have hlast : o.basis = [0, 3] := by
    rw [ho']
    decide +kernel
  exact ⟨hbasis, heps, o, ho, hstatus, hlast, hunit, hfresh⟩

end Tableau
end PenaltySimplex
