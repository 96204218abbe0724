import Mathlib.Algebra.BigOperators.Field
import Mathlib.Tactic.LinearCombination
import PenaltySimplex.Proofs.LinearForm
import PenaltySimplex.Tableau

/-!
# PenaltySimplex.Proofs.TableauProgram

The linear program that a tableau over an exact field stands for.

* `excess t i z`: by how much the left-hand side of row `i` at `z` exceeds its right-hand side.
* `Solves t z`: no constraint row has an excess. The cost of `z` is the excess of row 0.
* `SameSolutions t u`: same shape, same solutions; `Equivalent t u`: same cost of each as well.

A pivot on a nonzero entry of a constraint row gives an equivalent tableau
(`Equivalent.pivot`), as it divides one excess and subtracts a multiple of it from the others
(`excess_pivot`).
-/

namespace PenaltySimplex
namespace Tableau

variable {K : Type} [Field K]

/-- The left-hand side of row `i` at `z`. -/
def rowForm (t : Tableau K) (i : Nat) (z : Nat → K) : K :=
  ∑ j ∈ Finset.range t.numVariables, t.entry i j * z j

def excess (t : Tableau K) (i : Nat) (z : Nat → K) : K :=
  t.rowForm i z - t.rhs i

/-- Every constraint row holds with equality. -/
def Solves (t : Tableau K) (z : Nat → K) : Prop :=
  ∀ i < t.numConstraints, t.excess (i + 1) z = 0

theorem rowForm_congr {t : Tableau K} {i : Nat} {z w : Nat → K}
    (h : ∀ j < t.numVariables, z j = w j) : t.rowForm i z = t.rowForm i w :=
  Finset.sum_congr rfl fun j hj => by rw [h j (Finset.mem_range.1 hj)]

theorem rowForm_add_mul (t : Tableau K) (i : Nat) (z w : Nat → K) (a : K) :
    t.rowForm i (fun j => z j + a * w j) = t.rowForm i z + a * t.rowForm i w := by
  unfold rowForm
  rw [Finset.mul_sum, ← Finset.sum_add_distrib]
  refine Finset.sum_congr rfl ?_
  intro j _
  ring

theorem rowForm_sub (t : Tableau K) (i : Nat) (z w : Nat → K) :
    t.rowForm i (fun j => z j - w j) = t.rowForm i z - t.rowForm i w := by
  unfold rowForm
  rw [← Finset.sum_sub_distrib]
  refine Finset.sum_congr rfl ?_
  intro j _
  ring

theorem rowForm_unit {t : Tableau K} {c : Nat} (hc : c < t.numVariables) (i : Nat) :
    t.rowForm i (fun j => if j = c then 1 else 0) = t.entry i c := by
  simp [Tableau.rowForm, hc]

theorem excess_congr {t : Tableau K} {i : Nat} {z w : Nat → K}
    (h : ∀ j < t.numVariables, z j = w j) : t.excess i z = t.excess i w := by
  rw [excess, excess, rowForm_congr h]

theorem excess_add_mul (t : Tableau K) (i : Nat) (z w : Nat → K) (a : K) :
    t.excess i (fun j => z j + a * w j) = t.excess i z + a * t.rowForm i w := by
  rw [excess, excess, rowForm_add_mul]
  ring

structure SameSolutions (t u : Tableau K) : Prop where
  numRows : u.numRows = t.numRows
  numColumns : u.numColumns = t.numColumns
  solves_iff : ∀ z, u.Solves z ↔ t.Solves z

namespace SameSolutions

variable {t u v : Tableau K}

theorem symm (h : t.SameSolutions u) : u.SameSolutions t where
  numRows := h.numRows.symm
  numColumns := h.numColumns.symm
  solves_iff z := (h.solves_iff z).symm

theorem trans (h₁ : t.SameSolutions u) (h₂ : u.SameSolutions v) : t.SameSolutions v where
  numRows := h₂.numRows.trans h₁.numRows
  numColumns := h₂.numColumns.trans h₁.numColumns
  solves_iff z := (h₂.solves_iff z).trans (h₁.solves_iff z)

theorem numConstraints (h : t.SameSolutions u) : u.numConstraints = t.numConstraints := by
  rw [Tableau.numConstraints, h.numRows, Tableau.numConstraints]

theorem numVariables (h : t.SameSolutions u) : u.numVariables = t.numVariables := by
  rw [Tableau.numVariables, h.numColumns, Tableau.numVariables]

end SameSolutions

structure Equivalent (t u : Tableau K) : Prop extends t.SameSolutions u where
  cost_eq : ∀ z, t.Solves z → u.excess 0 z = t.excess 0 z

namespace Equivalent

variable {t u v : Tableau K}

theorem refl (t : Tableau K) : t.Equivalent t :=
  ⟨⟨rfl, rfl, fun _ => Iff.rfl⟩, fun _ _ => rfl⟩

theorem symm (h : t.Equivalent u) : u.Equivalent t where
  toSameSolutions := h.toSameSolutions.symm
  cost_eq z hz := (h.cost_eq z ((h.solves_iff z).1 hz)).symm

theorem trans (h₁ : t.Equivalent u) (h₂ : u.Equivalent v) : t.Equivalent v where
  toSameSolutions := h₁.toSameSolutions.trans h₂.toSameSolutions
  cost_eq z hz := (h₂.cost_eq z ((h₁.solves_iff z).2 hz)).trans (h₁.cost_eq z hz)

end Equivalent

variable [LinearOrder K]

/-- Skipping a row with a zero factor changes nothing when the arithmetic is exact. -/
theorem entry_pivot_eq {t : Tableau K} {r c i j : Nat} (hi : i < t.numRows)
    (hj : j < t.numColumns) :
    (t.pivot r c).entry i j =
      if i = r then t.entry r j / t.entry r c
      else t.entry i j - t.entry i c * (t.entry r j / t.entry r c) := by
  rw [entry_pivot hi hj]
  split_ifs with h h'
  · rfl
  · have h0 : t.entry i c = 0 := by simpa using h'
    rw [h0, zero_mul, sub_zero]
  · rfl

theorem rhs_pivot_eq {t : Tableau K} {r c i : Nat} (hi : i < t.numRows)
    (hc : c < t.numVariables) :
    (t.pivot r c).rhs i =
      if i = r then t.rhs r / t.entry r c
      else t.rhs i - t.entry i c * (t.rhs r / t.entry r c) := by
  have hj : t.rhsColumn < t.numColumns := by
    unfold numVariables at hc
    unfold rhsColumn
    omega
  exact entry_pivot_eq hi hj

theorem rowForm_pivot {t : Tableau K} {r c i : Nat} (hi : i < t.numRows) (z : Nat → K) :
    (t.pivot r c).rowForm i z =
      if i = r then t.rowForm r z / t.entry r c
      else t.rowForm i z - t.entry i c * (t.rowForm r z / t.entry r c) := by
  have hentry : ∀ j ∈ Finset.range t.numVariables, (t.pivot r c).entry i j =
      if i = r then t.entry r j / t.entry r c
      else t.entry i j - t.entry i c * (t.entry r j / t.entry r c) := by
    intro j hj
    have hj' := Finset.mem_range.1 hj
    exact entry_pivot_eq hi (by unfold numVariables at hj'; omega)
  unfold rowForm
  rw [show (t.pivot r c).numVariables = t.numVariables from rfl,
    Finset.sum_congr rfl fun j hj => by rw [hentry j hj]]
  split_ifs
  · rw [Finset.sum_div]
    exact Finset.sum_congr rfl fun j _ => by ring
  · rw [Finset.sum_div, Finset.mul_sum, ← Finset.sum_sub_distrib]
    exact Finset.sum_congr rfl fun j _ => by ring

theorem excess_pivot {t : Tableau K} {r c i : Nat} (hi : i < t.numRows)
    (hc : c < t.numVariables) (z : Nat → K) :
    (t.pivot r c).excess i z =
      if i = r then t.excess r z / t.entry r c
      else t.excess i z - t.entry i c * (t.excess r z / t.entry r c) := by
  rw [excess, rowForm_pivot hi, rhs_pivot_eq hi hc, excess, excess]
  split_ifs <;> ring

theorem Equivalent.pivot {t : Tableau K} {r c : Nat} (hr : r < t.numConstraints)
    (hc : c < t.numVariables) (h : t.entry (r + 1) c ≠ 0) :
    t.Equivalent (t.pivot (r + 1) c) where
  numRows := rfl
  numColumns := rfl
  solves_iff := by
    have hrows : ∀ i < t.numConstraints, i + 1 < t.numRows := by
      unfold Tableau.numConstraints
      omega
    intro z
    constructor
    · intro hz i hi
      -- the pivot row has no excess, so nothing was subtracted from the others
      have hpivot : t.excess (r + 1) z = 0 := by
        have h' := hz r hr
        rw [excess_pivot (hrows r hr) hc, if_pos rfl] at h'
        exact (div_eq_zero_iff.1 h').resolve_right h
      by_cases hir : i = r
      · rw [hir, hpivot]
      · have h' := hz i hi
        rw [excess_pivot (hrows i hi) hc, if_neg (by omega), hpivot] at h'
        linear_combination h'
    · intro hz i hi
      rw [excess_pivot (hrows i hi) hc, hz r hr, hz i hi]
      split_ifs <;> ring
  cost_eq := by
    intro z hz
    have hrows : 0 < t.numRows := by
      unfold Tableau.numConstraints at hr
      omega
    rw [excess_pivot hrows hc, if_neg (by omega), hz r hr]
    ring

end Tableau
end PenaltySimplex
