import PenaltySimplex.Proofs.Basis

/-!
# PenaltySimplex.Proofs.Exchange

One exchange of a basic variable, and the dictionary that a run starts from.

* An exchange on a nonzero entry keeps the canonical form (`Canonical.exchange`).
* On a positive entry whose row has the smallest ratio it keeps the right-hand sides nonnegative
  (`Feasible.exchange`), and the objective value changes by reduced cost times ratio
  (`objectiveValue_exchange`).
* `IsDictionaryOf t d`: `d` is canonical, feasible and equivalent to the tableau `t`. This is the
  invariant of the pivot loop. It holds at the start of a tableau with a unit basis and
  nonnegative right-hand sides (`Tableau.HasUnitBasis.isDictionaryOf_start`).
-/

namespace PenaltySimplex

variable {K : Type} [Field K] [LinearOrder K]

namespace Dictionary

/-- Every basic variable has a nonnegative value. -/
def Feasible (d : Dictionary K) : Prop :=
  ∀ i < d.tableau.numConstraints, 0 ≤ d.tableau.rhs (i + 1)

/-- How far variable `c` can be raised before the basic variable of row `i` reaches zero. -/
def ratio (d : Dictionary K) (c i : Nat) : K :=
  d.tableau.rhs (i + 1) / d.tableau.entry (i + 1) c

theorem basic_exchange {d : Dictionary K} {r : Nat} (hr : r < d.basis.length) (c i : Nat) :
    (d.exchange (r + 1) c).basic i = if i = r then c else d.basic i := by
  show (d.basis.set r c).getD i 0 = _
  rw [List.getD_eq_getElem?_getD, List.getElem?_set]
  by_cases h : i = r
  · subst h
    rw [if_pos rfl, if_pos rfl, if_pos hr, Option.getD_some]
  · rw [if_neg (Ne.symm h), if_neg h, basic, List.getD_eq_getElem?_getD]

section Exchange

variable {d : Dictionary K} {r c : Nat} (h : d.Canonical) (hc : c < d.tableau.numVariables)

include h hc

theorem rhs_exchange {i : Nat} (hi : i < d.tableau.numConstraints) (r : Nat) :
    (d.exchange (r + 1) c).tableau.rhs (i + 1) =
      if i = r then d.ratio c r
      else d.tableau.rhs (i + 1) - d.tableau.entry (i + 1) c * d.ratio c r := by
  show (d.tableau.pivot (r + 1) c).rhs (i + 1) = _
  rw [Tableau.rhs_pivot_eq (h.row_lt hi) hc]
  simp only [Nat.add_right_cancel_iff, ratio]

theorem objectiveValue_exchange (r : Nat) :
    (d.exchange (r + 1) c).tableau.objectiveValue =
      d.tableau.objectiveValue + d.tableau.entry 0 c * d.ratio c r := by
  show -(d.tableau.pivot (r + 1) c).rhs 0 = -d.tableau.rhs 0 + _
  rw [Tableau.rhs_pivot_eq h.numRows_pos hc, if_neg (by omega), ratio]
  ring

variable (hr : r < d.tableau.numConstraints)

include hr

theorem Canonical.exchange (hpivot : d.tableau.entry (r + 1) c ≠ 0) :
    (d.exchange (r + 1) c).Canonical where
  numRows_pos := h.numRows_pos
  numColumns_pos := h.numColumns_pos
  length_basis := by
    show (d.basis.set r c).length = _
    rw [List.length_set]
    exact h.length_basis
  basic_lt i hi := by
    rw [basic_exchange (h.length_basis ▸ hr)]
    split_ifs
    · exact hc
    · exact h.basic_lt i hi
  unit i hi k hk := by
    show (d.tableau.pivot (r + 1) c).entry k _ = _
    have hk' : k < d.tableau.numRows := hk
    rw [basic_exchange (h.length_basis ▸ hr)]
    by_cases hir : i = r
    · -- the entering column becomes the unit vector of the pivot row
      subst hir
      rw [if_pos rfl, Tableau.entry_pivot_eq hk' (hc.trans h.numVariables_lt), div_self hpivot]
      split_ifs <;> ring
    · -- a column that stays basic has a zero in the pivot row
      have hzero : d.tableau.entry (r + 1) (d.basic i) = 0 := by
        rw [h.unit i hi _ (h.row_lt hr), if_neg (by omega)]
      rw [if_neg hir, Tableau.entry_pivot_eq hk' ((h.basic_lt i hi).trans h.numVariables_lt),
        hzero, zero_div, mul_zero, sub_zero, h.unit i hi k hk']
      split_ifs <;> first | rfl | omega

variable [IsStrictOrderedRing K]

theorem Feasible.exchange (hf : d.Feasible) (hpos : 0 < d.tableau.entry (r + 1) c)
    (hmin : ∀ i < d.tableau.numConstraints, 0 < d.tableau.entry (i + 1) c →
      d.ratio c r ≤ d.ratio c i) : (d.exchange (r + 1) c).Feasible := by
  have hratio : 0 ≤ d.ratio c r := div_nonneg (hf r hr) hpos.le
  intro i hi
  rw [rhs_exchange h hc hi]
  split_ifs with hir
  · exact hratio
  · have hi₀ := hf i hi
    rcases le_or_gt (d.tableau.entry (i + 1) c) 0 with hle | hgt
    · have hprod := mul_nonpos_of_nonpos_of_nonneg hle hratio
      linarith
    · have hprod := (le_div_iff₀' hgt).1 (hmin i hi hgt)
      linarith

end Exchange

/-- The invariant of the pivot loop on a tableau. -/
structure IsDictionaryOf (t : Tableau K) (d : Dictionary K) : Prop where
  canonical : d.Canonical
  feasible : d.Feasible
  equivalent : t.Equivalent d.tableau

end Dictionary

namespace Tableau

/-- The last variable columns, as many as there are constraint rows, are the unit vectors of
these rows, with reduced cost zero. -/
structure HasUnitBasis (t : Tableau K) : Prop where
  numRows_pos : 0 < t.numRows
  numConstraints_lt : t.numConstraints < t.numColumns
  unit : ∀ i < t.numConstraints, ∀ k < t.numRows,
    t.entry k (t.numStructural + i) = if k = i + 1 then 1 else 0

theorem basic_start {α : Type} {t : Tableau α} {i : Nat} (hi : i < t.numConstraints) :
    (Dictionary.start t).basic i = t.numStructural + i := by
  show (List.range' t.numStructural t.numConstraints).getD i 0 = _
  rw [List.getD_eq_getElem _ _ (by simpa using hi), List.getElem_range', Nat.one_mul]

namespace HasUnitBasis

variable {t : Tableau K}

omit [LinearOrder K] in
theorem canonical_start (h : t.HasUnitBasis) : (Dictionary.start t).Canonical where
  numRows_pos := h.numRows_pos
  numColumns_pos := Nat.zero_lt_of_lt h.numConstraints_lt
  length_basis := by
    show (List.range' t.numStructural t.numConstraints).length = _
    rw [List.length_range']
    rfl
  basic_lt i hi := by
    have hlt := h.numConstraints_lt
    have hi' : i < t.numConstraints := hi
    rw [basic_start hi']
    show _ < t.numVariables
    unfold numStructural numVariables
    omega
  unit i hi k hk := by
    have hi' : i < t.numConstraints := hi
    rw [basic_start hi']
    exact h.unit i hi' k hk

theorem isDictionaryOf_start (h : t.HasUnitBasis)
    (hrhs : ∀ i < t.numConstraints, 0 ≤ t.rhs (i + 1)) :
    (Dictionary.start t).IsDictionaryOf t :=
  ⟨h.canonical_start, hrhs, .refl t⟩

end HasUnitBasis
end Tableau
end PenaltySimplex
