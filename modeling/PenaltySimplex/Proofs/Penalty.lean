import Mathlib.Algebra.BigOperators.Fin
import PenaltySimplex.Proofs.Exchange
import PenaltySimplex.Proofs.Program
import PenaltySimplex.Tableau.Penalty

/-!
# PenaltySimplex.Proofs.Penalty

The starting tableau of the penalty method, read as a linear program.

* Its artificial columns are a unit basis and its right-hand sides are nonnegative
  (`hasUnitBasis_startingTableau`, `rhs_startingTableau_nonneg`).
* A constraint row is an equation, oriented, plus its artificial variable
  (`excess_startingTableau`). So a feasible point with artificial variables zero is a solution,
  and a solution whose artificial variables are zero solves the equations.
* On solutions the cost is the objective plus the penalty times the sum of the artificial
  variables (`cost_startingTableau`). The solutions do not depend on the penalty.
* `startingTableau_encodes` says all of this of lists of values and artificial variables.
-/

namespace PenaltySimplex

open Linear

variable {K : Type} [Field K] [LinearOrder K] [IsStrictOrderedRing K]

namespace Equation

theorem orientation_ne_zero (e : Equation K) : e.orientation ≠ 0 := by
  unfold orientation
  split
  · exact neg_ne_zero.2 one_ne_zero
  · exact one_ne_zero

theorem orientation_mul_rhs (e : Equation K) : e.orientation * e.rhs = |e.rhs| := by
  unfold orientation
  split
  · rw [neg_one_mul, abs_of_neg ‹_›]
  · rw [one_mul, abs_of_nonneg (not_lt.1 ‹_›)]

omit [IsStrictOrderedRing K] in
theorem getD_oriented (e : Equation K) (j : Nat) :
    e.oriented.coefficients.getD j 0 = e.orientation * e.coefficients.getD j 0 :=
  getD_map_of_zero (mul_zero e.orientation) e.coefficients j

end Equation

namespace StandardForm

/-- The sum of the artificial variables at `z`. -/
def artificialTotal (p : StandardForm K) (z : Nat → K) : K :=
  ∑ i ∈ Finset.range p.numRows, z (p.numColumns + i)

/-- Objective coefficients, and the penalty for each artificial variable. -/
def penalizedCost (p : StandardForm K) (penalty : K) (j : Nat) : K :=
  if j < p.numColumns then p.objective.getD j 0 else penalty

variable {p : StandardForm K} {penalty : K}

theorem exists_equation {α : Type} {p : StandardForm α} {i : Nat} (hi : i < p.numRows) :
    ∃ e, p.equations[i]? = some e :=
  ⟨p.equations[i], List.getElem?_eq_getElem hi⟩

theorem lt_numRows {α : Type} {p : StandardForm α} {i : Nat} {e : Equation α}
    (he : p.equations[i]? = some e) : i < p.numRows :=
  (List.getElem?_eq_some_iff.1 he).1

section Entries

variable {i j : Nat} {e : Equation K} (he : p.equations[i]? = some e)

include he

omit [IsStrictOrderedRing K] in
theorem entry_startingTableau_of_lt (hj : j < p.numColumns) :
    (p.startingTableau penalty).entry (i + 1) j = e.orientation * e.coefficients.getD j 0 := by
  have hi := lt_numRows he
  rw [startingTableau, Tableau.entry_ofFn _ (by omega) (by omega)]
  simp only [startingEntry, he, if_pos hj]
  exact e.getD_oriented j

omit [IsStrictOrderedRing K] in
theorem entry_startingTableau_artificial {k : Nat} (hk : k < p.numRows) :
    (p.startingTableau penalty).entry (i + 1) (p.numColumns + k) = if k = i then 1 else 0 := by
  have hi := lt_numRows he
  rw [startingTableau, Tableau.entry_ofFn _ (by omega) (by omega)]
  simp only [startingEntry, he]
  rw [if_neg (by omega), if_neg (by omega)]
  exact if_congr (by omega) rfl rfl

theorem rhs_startingTableau : (p.startingTableau penalty).rhs (i + 1) = |e.rhs| := by
  have hi := lt_numRows he
  rw [Tableau.rhs, startingTableau, Tableau.entry_ofFn _ (by omega) (by simp [Tableau.rhsColumn])]
  simp only [startingEntry, he, Tableau.rhsColumn, Tableau.numColumns_ofFn, Nat.add_sub_cancel]
  rw [if_neg (by omega), if_pos True.intro]
  exact e.orientation_mul_rhs

end Entries

theorem rhs_startingTableau_nonneg (p : StandardForm K) (penalty : K) :
    ∀ i < (p.startingTableau penalty).numConstraints,
      0 ≤ (p.startingTableau penalty).rhs (i + 1) := by
  intro i hi
  obtain ⟨e, he⟩ := exists_equation (p := p) hi
  rw [rhs_startingTableau he]
  exact abs_nonneg _

theorem numStructural_startingTableau {α : Type} [Scalar α] {p : StandardForm α} {penalty : α} :
    (p.startingTableau penalty).numStructural = p.numColumns :=
  Nat.add_sub_cancel _ _

omit [IsStrictOrderedRing K] in
theorem entry_zero_artificial {k : Nat} (hk : k < p.numRows) :
    (p.startingTableau penalty).entry 0 (p.numColumns + k) = 0 := by
  rw [startingTableau, Tableau.entry_ofFn _ (by omega) (by omega)]
  simp only
  rw [if_neg (by omega), if_neg (by omega)]

omit [IsStrictOrderedRing K] in
theorem hasUnitBasis_startingTableau (p : StandardForm K) (penalty : K) :
    (p.startingTableau penalty).HasUnitBasis where
  numRows_pos := Nat.succ_pos _
  numConstraints_lt := by
    show p.numRows + 1 - 1 < p.numColumns + p.numRows + 1
    omega
  unit := by
    intro i hi k hk
    rw [numStructural_startingTableau]
    cases k with
    | zero => rw [entry_zero_artificial hi, if_neg (by omega)]
    | succ k =>
      have hk' : k < p.numRows := Nat.lt_of_succ_lt_succ hk
      obtain ⟨e, he⟩ := exists_equation hk'
      rw [entry_startingTableau_artificial he hi]
      exact if_congr (by omega) rfl rfl

/-! ## Rows as linear forms -/

omit [IsStrictOrderedRing K] in
theorem rowForm_startingTableau {i : Nat} {e : Equation K} (he : p.equations[i]? = some e)
    (z : Nat → K) :
    (p.startingTableau penalty).rowForm (i + 1) z =
      e.orientation * form e.coefficients (point p.numColumns z) + z (p.numColumns + i) := by
  have hi := lt_numRows he
  have hwidth := p.width e (List.mem_of_getElem? he)
  show ∑ j ∈ Finset.range (p.numColumns + p.numRows), _ = _
  rw [Finset.sum_range_add, form_point (n := p.numColumns) hwidth.le, Finset.mul_sum]
  refine congrArg₂ (· + ·) (Finset.sum_congr rfl fun j hj => ?_) ?_
  · rw [entry_startingTableau_of_lt he (Finset.mem_range.1 hj), mul_assoc]
  · rw [Finset.sum_eq_single i]
    · rw [entry_startingTableau_artificial he hi, if_pos rfl, one_mul]
    · intro k hk hki
      rw [entry_startingTableau_artificial he (Finset.mem_range.1 hk), if_neg hki, zero_mul]
    · intro hi'
      exact absurd (Finset.mem_range.2 hi) hi'

theorem excess_startingTableau {i : Nat} {e : Equation K} (he : p.equations[i]? = some e)
    (z : Nat → K) :
    (p.startingTableau penalty).excess (i + 1) z =
      e.orientation * (form e.coefficients (point p.numColumns z) - e.rhs) +
        z (p.numColumns + i) := by
  rw [Tableau.excess, rowForm_startingTableau he, rhs_startingTableau he, ← e.orientation_mul_rhs]
  ring

omit [LinearOrder K] [IsStrictOrderedRing K] in
theorem sum_map_equations {f : Equation K → K} {g : Nat → K}
    (h : ∀ i e, p.equations[i]? = some e → f e = g i) :
    (p.equations.map f).sum = ∑ i ∈ Finset.range p.numRows, g i := by
  rw [Finset.sum_range, ← Fin.sum_univ_fun_getElem]
  exact Finset.sum_congr rfl fun i _ => h i _ (List.getElem?_eq_getElem i.isLt)

omit [IsStrictOrderedRing K] in
theorem entry_zero_startingTableau {j : Nat} (hj : j < p.numColumns + p.numRows) :
    (p.startingTableau penalty).entry 0 j = p.penalizedCost penalty j -
      penalty * ∑ i ∈ Finset.range p.numRows, (p.startingTableau penalty).entry (i + 1) j := by
  unfold penalizedCost
  by_cases hn : j < p.numColumns
  · rw [if_pos hn, ← sum_map_equations (f := fun e => e.oriented.coefficients.getD j 0)
      fun i e he => ?_]
    · rw [startingTableau, Tableau.entry_ofFn _ (by omega) (by omega)]
      simp only
      rw [if_pos hn, startingCost, Scalar.sum_eq]
    · rw [entry_startingTableau_of_lt he hn, e.getD_oriented]
  · -- an artificial column has its one entry in its own row
    obtain ⟨k, rfl⟩ := Nat.exists_eq_add_of_le (not_lt.1 hn)
    have hk : k < p.numRows := by omega
    rw [if_neg hn, entry_zero_artificial hk, Finset.sum_eq_single k]
    · obtain ⟨e, he⟩ := exists_equation hk
      rw [entry_startingTableau_artificial he hk, if_pos rfl]
      ring
    · intro i hi hik
      obtain ⟨e, he⟩ := exists_equation (Finset.mem_range.1 hi)
      rw [entry_startingTableau_artificial he hk, if_neg (Ne.symm hik)]
    · intro hk'
      exact absurd (Finset.mem_range.2 hk) hk'

theorem rhs_zero_startingTableau :
    (p.startingTableau penalty).rhs 0 =
      -penalty * ∑ i ∈ Finset.range p.numRows, (p.startingTableau penalty).rhs (i + 1) := by
  rw [← sum_map_equations (f := fun e => |e.rhs|) fun i e he => (rhs_startingTableau he).symm]
  rw [Tableau.rhs, startingTableau, Tableau.entry_ofFn _ (by omega) (by simp [Tableau.rhsColumn])]
  simp only [Tableau.rhsColumn, Tableau.numColumns_ofFn, Nat.add_sub_cancel]
  rw [if_neg (by omega), if_pos True.intro, Scalar.sum_eq, rhs, List.map_map]
  rfl

omit [IsStrictOrderedRing K] in
theorem rowForm_zero_startingTableau (z : Nat → K) :
    (p.startingTableau penalty).rowForm 0 z =
      form p.objective (point p.numColumns z) + penalty * p.artificialTotal z -
        penalty * ∑ i ∈ Finset.range p.numRows,
          (p.startingTableau penalty).rowForm (i + 1) z := by
  have hentry : ∀ j ∈ Finset.range (p.numColumns + p.numRows),
      (p.startingTableau penalty).entry 0 j * z j = p.penalizedCost penalty j * z j -
        penalty * ∑ i ∈ Finset.range p.numRows,
          (p.startingTableau penalty).entry (i + 1) j * z j := by
    intro j hj
    rw [entry_zero_startingTableau (Finset.mem_range.1 hj), ← Finset.sum_mul]
    ring
  have hcost : ∑ j ∈ Finset.range (p.numColumns + p.numRows), p.penalizedCost penalty j * z j =
      form p.objective (point p.numColumns z) + penalty * p.artificialTotal z := by
    rw [Finset.sum_range_add, form_point (n := p.numColumns) le_rfl, artificialTotal,
      Finset.mul_sum]
    refine congrArg₂ (· + ·) (Finset.sum_congr rfl fun j hj => ?_)
      (Finset.sum_congr rfl fun i _ => ?_)
    · rw [penalizedCost, if_pos (Finset.mem_range.1 hj)]
    · rw [penalizedCost, if_neg (by omega)]
  show ∑ j ∈ Finset.range (p.numColumns + p.numRows), _ = _
  rw [Finset.sum_congr rfl hentry, Finset.sum_sub_distrib, hcost, ← Finset.mul_sum,
    Finset.sum_comm]
  rfl

/-! ## Solutions -/

theorem solves_startingTableau_iff (z : Nat → K) :
    (p.startingTableau penalty).Solves z ↔ ∀ i e, p.equations[i]? = some e →
      e.orientation * (form e.coefficients (point p.numColumns z) - e.rhs) +
        z (p.numColumns + i) = 0 := by
  constructor
  · intro h i e he
    rw [← excess_startingTableau he]
    exact h i (lt_numRows he)
  · intro h i hi
    obtain ⟨e, he⟩ := exists_equation (p := p) hi
    rw [excess_startingTableau he]
    exact h i e he

/-- The penalty is only in the objective row. -/
theorem sameSolutions_startingTableau (p : StandardForm K) (penalty penalty' : K) :
    (p.startingTableau penalty).SameSolutions (p.startingTableau penalty') where
  numRows := rfl
  numColumns := rfl
  solves_iff z := by
    rw [solves_startingTableau_iff, solves_startingTableau_iff]

theorem cost_startingTableau {z : Nat → K} (hz : (p.startingTableau penalty).Solves z) :
    (p.startingTableau penalty).excess 0 z =
      form p.objective (point p.numColumns z) + penalty * p.artificialTotal z := by
  have hrows : ∑ i ∈ Finset.range p.numRows, (p.startingTableau penalty).rowForm (i + 1) z =
      ∑ i ∈ Finset.range p.numRows, (p.startingTableau penalty).rhs (i + 1) :=
    Finset.sum_congr rfl fun i hi => sub_eq_zero.1 (hz i (Finset.mem_range.1 hi))
  rw [Tableau.excess, rowForm_zero_startingTableau, rhs_zero_startingTableau, hrows]
  ring

omit [IsStrictOrderedRing K] in
theorem cost_level {w : Nat → K}
    (hw : ∀ i < p.numRows, (p.startingTableau penalty).rowForm (i + 1) w = 0) :
    (p.startingTableau penalty).rowForm 0 w =
      form p.objective (point p.numColumns w) + penalty * p.artificialTotal w := by
  rw [rowForm_zero_startingTableau,
    Finset.sum_eq_zero fun i hi => hw i (Finset.mem_range.1 hi)]
  ring

theorem Solves.solves_startingTableau {x : List K} (hx : p.Solves x) (penalty : K) :
    (p.startingTableau penalty).Solves fun j => x.getD j 0 := by
  rw [solves_startingTableau_iff]
  intro i e he
  rw [point_getD hx.length_eq, hx.holds e (List.mem_of_getElem? he), sub_self, mul_zero, zero_add]
  exact List.getD_eq_default _ _ (by rw [hx.length_eq]; omega)

omit [LinearOrder K] [IsStrictOrderedRing K] in
theorem artificialTotal_getD {x : List K} (hx : x.length = p.numColumns) :
    p.artificialTotal (fun j => x.getD j 0) = 0 :=
  Finset.sum_eq_zero fun i _ => List.getD_eq_default _ _ (by omega)

theorem solves_point {z : Nat → K} (hz : (p.startingTableau penalty).Solves z)
    (hzero : ∀ i < p.numRows, z (p.numColumns + i) = 0) : p.Solves (point p.numColumns z) where
  length_eq := length_point _ _
  holds e he := by
    obtain ⟨i, hi⟩ := List.mem_iff_getElem?.1 he
    have hrow := (solves_startingTableau_iff z).1 hz i e hi
    rw [hzero i (lt_numRows hi), add_zero] at hrow
    exact sub_eq_zero.1 ((mul_eq_zero.1 hrow).resolve_left e.orientation_ne_zero)

theorem form_eq_zero_of_level {w : Nat → K}
    (hw : ∀ i < p.numRows, (p.startingTableau penalty).rowForm (i + 1) w = 0)
    (hzero : ∀ i < p.numRows, w (p.numColumns + i) = 0) :
    ∀ e ∈ p.equations, form e.coefficients (point p.numColumns w) = 0 := by
  intro e he
  obtain ⟨i, hi⟩ := List.mem_iff_getElem?.1 he
  have hrow := hw i (lt_numRows hi)
  rw [rowForm_startingTableau hi, hzero i (lt_numRows hi), add_zero] at hrow
  exact (mul_eq_zero.1 hrow).resolve_left e.orientation_ne_zero

theorem artificial_eq_zero {z : Nat → K} (hz : ∀ j, 0 ≤ z j) (h : p.artificialTotal z ≤ 0) :
    ∀ i < p.numRows, z (p.numColumns + i) = 0 := by
  intro i hi
  have hle := Finset.single_le_sum (fun k _ => hz (p.numColumns + k)) (Finset.mem_range.2 hi)
  exact le_antisymm (hle.trans h) (hz _)

/-! ## Points with artificial variables -/

section Append

variable {x a : List K} (hx : x.length = p.numColumns)

include hx

omit [LinearOrder K] [IsStrictOrderedRing K] in
theorem getD_append_artificial (a : List K) (i : Nat) :
    (x ++ a).getD (p.numColumns + i) 0 = a.getD i 0 := by
  rw [← hx, List.getD_append_right _ _ _ _ (Nat.le_add_right _ _), Nat.add_sub_cancel_left]

omit [LinearOrder K] [IsStrictOrderedRing K] in
theorem point_append (a : List K) : point p.numColumns (fun j => (x ++ a).getD j 0) = x := by
  refine Eq.trans (List.map_congr_left fun j hj => ?_) (point_getD hx)
  exact List.getD_append _ _ _ _ (hx ▸ List.mem_range.1 hj)

omit [LinearOrder K] [IsStrictOrderedRing K] in
theorem artificialTotal_append (ha : a.length = p.numRows) :
    p.artificialTotal (fun j => (x ++ a).getD j 0) = a.sum := by
  rw [artificialTotal, ← ha, Finset.sum_range]
  simp only [getD_append_artificial hx]
  have hsum := Fin.sum_univ_fun_getElem a id
  rw [List.map_id] at hsum
  rw [← hsum]
  exact Finset.sum_congr rfl fun i _ => List.getD_eq_getElem _ _ i.isLt

theorem solves_iff_append_zeros (penalty : K) :
    p.Solves x ↔ (p.startingTableau penalty).Solves
      fun j => (x ++ List.replicate p.numRows 0).getD j 0 := by
  have hzero : ∀ i < p.numRows,
      (x ++ List.replicate p.numRows 0).getD (p.numColumns + i) 0 = 0 := by
    intro i hi
    rw [getD_append_artificial hx, List.getD_replicate _ hi]
  constructor
  · intro h
    rw [solves_startingTableau_iff]
    intro i e he
    rw [point_append hx, h.holds e (List.mem_of_getElem? he), hzero i (lt_numRows he)]
    ring
  · intro h
    have hsolves := solves_point h hzero
    rwa [point_append hx] at hsolves

end Append

/-- The starting tableau stands for the penalized program: its rows are the equations, oriented,
with one artificial variable each, and the cost of a solution is its objective plus the penalty
times the sum of its artificial variables. -/
theorem startingTableau_encodes (p : StandardForm K) (penalty : K) :
    (p.startingTableau penalty).numRows = p.numRows + 1 ∧
    (p.startingTableau penalty).numColumns = p.numColumns + p.numRows + 1 ∧
    (∀ i < p.numRows, 0 ≤ (p.startingTableau penalty).rhs (i + 1)) ∧
    (∀ k < p.numRows, ∀ i ≤ p.numRows,
      (p.startingTableau penalty).entry i (p.numColumns + k) = if i = k + 1 then 1 else 0) ∧
    (∀ x : List K, x.length = p.numColumns →
      (p.Solves x ↔ (p.startingTableau penalty).Solves
        fun j => (x ++ List.replicate p.numRows 0).getD j 0)) ∧
    ∀ x a : List K, x.length = p.numColumns → a.length = p.numRows →
      (p.startingTableau penalty).Solves (fun j => (x ++ a).getD j 0) →
      (p.startingTableau penalty).excess 0 (fun j => (x ++ a).getD j 0) =
        form p.objective x + penalty * a.sum := by
  refine ⟨rfl, rfl, p.rhs_startingTableau_nonneg penalty, ?_, ?_, ?_⟩
  · intro k hk i hi
    have hunit := (p.hasUnitBasis_startingTableau penalty).unit k hk i (Nat.lt_succ_of_le hi)
    rwa [numStructural_startingTableau] at hunit
  · intro x hx
    exact solves_iff_append_zeros hx penalty
  · intro x a hx ha hsolves
    rw [cost_startingTableau hsolves, point_append hx, artificialTotal_append hx ha]

/-- Minimize `2x + y` subject to `x + y = 4` and `2x - y = -2`. -/
def crossing : StandardForm ℚ where
  objective := [2, 1]
  equations := [⟨[1, 1], 4⟩, ⟨[2, -1], -2⟩]
  width := by decide

/-- The second equation is negated. The origin needs artificial variables `4` and `2`. -/
theorem startingTableau_encodes_crossing :
    ([0, 0] : List ℚ).length = crossing.numColumns ∧
    ([4, 2] : List ℚ).length = crossing.numRows ∧
    (crossing.startingTableau 10).Solves (fun j => ([0, 0] ++ [4, 2] : List ℚ).getD j 0) ∧
    (crossing.startingTableau 10).excess 0 (fun j => ([0, 0] ++ [4, 2] : List ℚ).getD j 0) =
      form crossing.objective [0, 0] + 10 * [4, 2].sum ∧
    (crossing.startingTableau 10).rhs 2 = 2 ∧
    ([2 / 3, 10 / 3] : List ℚ).length = crossing.numColumns ∧
    crossing.Solves [2 / 3, 10 / 3] := by
  obtain ⟨_, _, _, _, hsolves, hcost⟩ := startingTableau_encodes crossing 10
  have horigin : (crossing.startingTableau 10).Solves
      fun j => ([0, 0] ++ [4, 2] : List ℚ).getD j 0 := by
    show ∀ i < 2, _
    decide +kernel
  have hpoint : (crossing.startingTableau 10).Solves
      fun j => ([2 / 3, 10 / 3] ++ List.replicate 2 0 : List ℚ).getD j 0 := by
    show ∀ i < 2, _
    decide +kernel
  exact ⟨rfl, rfl, horigin, hcost [0, 0] [4, 2] rfl rfl horigin, by decide +kernel, rfl,
    (hsolves [2 / 3, 10 / 3] rfl).2 hpoint⟩

end StandardForm
end PenaltySimplex
