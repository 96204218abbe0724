import Mathlib.Algebra.Order.Ring.Rat
import PenaltySimplex.Proofs.MatrixForm

/-!
# PenaltySimplex.Proofs.SlackColumns

The extra columns of the equality form, one for each inequality.

The columns are numbered along the inequalities, so two of them never stand in the same row
(`pairwise_slacks`), and a row with an extra column has its sign there and zeros elsewhere
(`form_slackEntries`). So a point of the problem extends to a solution of the equality form in
one way only, by the room that it leaves in each inequality (`eq_slackValues`). A problem and its
equality form are the same program (`toStandardForm_equivalent`).
-/

namespace PenaltySimplex

open Linear

theorem Comparison.slackSign?_ne_zero {K : Type} [Field K] {c : Comparison} {s : K}
    (h : c.slackSign? = some s) : s ≠ 0 := by
  cases c with
  | le =>
    cases h
    exact one_ne_zero
  | ge =>
    cases h
    exact neg_ne_zero.2 one_ne_zero
  | eq => cases h

namespace Problem

section Columns

variable {α : Type} [Scalar α]

theorem pairwise_slacks (p : Problem α) : p.slacks.Pairwise fun a b => a.1 < b.1 := by
  have hrows : p.constraints.zipIdx.Pairwise fun a b => a.2 < b.2 := by
    refine List.pairwise_map.1 ?_
    rw [List.zipIdx_map_snd]
    exact List.pairwise_lt_range'
  refine hrows.filterMap _ ?_
  rintro ⟨c, i⟩ ⟨d, k⟩ hlt x hx y hy
  obtain ⟨s, _, rfl⟩ := Option.map_eq_some_iff.1 hx
  obtain ⟨r, _, rfl⟩ := Option.map_eq_some_iff.1 hy
  exact hlt

theorem slack_inj {p : Problem α} {k l i : Nat} {s r : α} (hk : p.slacks[k]? = some (i, s))
    (hl : p.slacks[l]? = some (i, r)) : k = l := by
  obtain ⟨hk, hki⟩ := List.getElem?_eq_some_iff.1 hk
  obtain ⟨hl, hli⟩ := List.getElem?_eq_some_iff.1 hl
  have hrows := List.pairwise_iff_getElem.1 p.pairwise_slacks
  rcases Nat.lt_trichotomy k l with hlt | heq | hgt
  · have hrow := hrows k l hk hl hlt
    rw [hki, hli] at hrow
    exact absurd hrow (Nat.lt_irrefl i)
  · exact heq
  · have hrow := hrows l k hl hk hgt
    rw [hki, hli] at hrow
    exact absurd hrow (Nat.lt_irrefl i)

/-- An extra column belongs to an inequality, whose sign it has. -/
theorem exists_constraint {p : Problem α} {k i : Nat} {s : α}
    (h : p.slacks[k]? = some (i, s)) :
    ∃ c, p.constraints[i]? = some c ∧ c.comparison.slackSign? = some s := by
  obtain ⟨⟨c, j⟩, hc, hs⟩ := List.mem_filterMap.1 (List.mem_of_getElem? h)
  obtain ⟨r, hr, hpair⟩ := Option.map_eq_some_iff.1 hs
  obtain ⟨rfl, rfl⟩ := Prod.mk.inj hpair
  exact ⟨c, List.mk_mem_zipIdx_iff_getElem?.1 hc, hr⟩

theorem slackEntries_getD {p : Problem α} {k i : Nat} {s : α} (h : p.slacks[k]? = some (i, s))
    {j : Nat} (hj : j < p.slacks.length) :
    (p.slackEntries i).getD j 0 = if j = k then s else 0 := by
  obtain ⟨⟨row, r⟩, hr⟩ : ∃ x, p.slacks[j]? = some x := ⟨_, List.getElem?_eq_getElem hj⟩
  rw [slackEntries, List.getD_eq_getElem?_getD, List.getElem?_map, hr]
  simp only [Option.map_some, Option.getD_some]
  by_cases hjk : j = k
  · subst hjk
    rw [h] at hr
    cases hr
    rw [if_pos rfl, if_pos rfl]
  · rw [if_neg hjk, if_neg]
    rintro rfl
    exact hjk (slack_inj hr h)

theorem length_slacks (p : Problem α) :
    p.slacks.length = p.constraints.countP fun c => c.comparison ≠ .eq := by
  have hsome : ∀ x : Constraint α × Nat,
      (x.1.comparison.slackSign?.map fun s : α => (x.2, s)).isSome =
        decide (x.1.comparison ≠ .eq) := by
    rintro ⟨c, i⟩
    rw [Option.isSome_map]
    cases c.comparison <;> rfl
  calc p.slacks.length
    _ = p.constraints.zipIdx.countP ((fun c => c.comparison ≠ .eq) ∘ Prod.fst) := by
      rw [slacks, List.length_filterMap_eq_countP]
      exact List.countP_congr fun x _ => by rw [hsome x]; rfl
    _ = p.constraints.countP fun c => c.comparison ≠ .eq := by
      rw [← List.countP_map, List.zipIdx_map_fst]

end Columns

variable {K : Type} [Field K] [LinearOrder K] {p : Problem K} {q : StandardForm K}

theorem form_slackEntries {k i : Nat} {a : K} (h : p.slacks[k]? = some (i, a)) (s : List K) :
    form (p.slackEntries i) s = a * s.getD k 0 := by
  have hk : k < p.slacks.length := (List.getElem?_eq_some_iff.1 h).1
  have hlength : (p.slackEntries i).length ≤ p.slacks.length := by
    rw [slackEntries, List.length_map]
  rw [form_eq_sum hlength, Finset.sum_eq_single k]
  · rw [slackEntries_getD h hk, if_pos rfl]
  · intro j hj hjk
    rw [slackEntries_getD h (Finset.mem_range.1 hj), if_neg hjk, zero_mul]
  · intro hout
    exact absurd (Finset.mem_range.2 hk) hout

section Accepted

variable (h : p.toStandardForm = .ok q)

include h

/-- Row by row, the values of the extra columns are the room that is left. -/
theorem form_slackEntries_eq {x s : List K} (hx : x.length = p.numVariables)
    (hs : q.Solves (x ++ s)) {i : Nat} {c : Constraint K} (hc : p.constraints[i]? = some c) :
    form (p.slackEntries i) s = c.rhs - form c.coefficients x := by
  have hrow := hs.holds ⟨c.coefficients ++ p.slackEntries i, c.rhs⟩ (by
    rw [(toStandardForm_eq_ok h).2.2]
    exact mem_standardEquations.2 ⟨i, c, hc, rfl⟩)
  simp only at hrow
  rw [form_standardEquation h hc hx] at hrow
  exact eq_sub_of_add_eq' hrow

theorem eq_slackValues {x s : List K} (hx : x.length = p.numVariables)
    (hs : q.Solves (x ++ s)) : s = p.slackValues x := by
  have hlength : s.length = p.slacks.length := by
    have hcolumns := hs.length_eq
    rw [List.length_append, hx, numColumns_of_toStandardForm h] at hcolumns
    exact Nat.add_left_cancel hcolumns
  have hlength' := p.length_slackValues x
  refine List.ext_getElem (hlength.trans hlength'.symm) ?_
  intro k hk hk'
  -- the room in the row of column `k`, once by `s` and once by the values of the columns
  obtain ⟨⟨i, a⟩, hslack⟩ : ∃ y, p.slacks[k]? = some y :=
    ⟨_, List.getElem?_eq_getElem (hlength ▸ hk)⟩
  obtain ⟨c, hc, ha⟩ := exists_constraint hslack
  have hroom : form (p.slackEntries i) (p.slackValues x) = c.rhs - form c.coefficients x := by
    rw [form_slackValues hc]
    cases hcmp : c.comparison with
    | le => rfl
    | ge => rfl
    | eq =>
      rw [hcmp] at ha
      cases ha
  have heq := (form_slackEntries_eq h hx hs hc).trans hroom.symm
  rw [form_slackEntries hslack, form_slackEntries hslack] at heq
  have hvalue := mul_left_cancel₀ (Comparison.slackSign?_ne_zero ha) heq
  rwa [List.getD_eq_getElem _ _ hk, List.getD_eq_getElem _ _ hk'] at hvalue

end Accepted

variable [IsStrictOrderedRing K]

/-- Both ways to the equality form give one form, which exists exactly for accepted problems, and it
states the same program: the points that satisfy the constraints are those that extend to a nonnegative solution, each by one
list of extra values, and the objective is kept, or negated if it is maximized. -/
theorem toStandardForm_equivalent (p : Problem K) :
    p.toStandardForm = p.matrixForm ∧
    ((∃ q, p.toStandardForm = .ok q) ↔ p.validate = .ok ()) ∧
    ∀ q, p.toStandardForm = .ok q →
      q.numColumns = p.numVariables + p.constraints.countP (fun c => c.comparison ≠ .eq) ∧
      (∀ x, x.length = p.numVariables → (∀ v ∈ x, 0 ≤ v) →
        ((∀ c ∈ p.constraints, c.Holds x) ↔ ∃ s, (∀ v ∈ s, 0 ≤ v) ∧ q.Solves (x ++ s)) ∧
        ∀ s s', q.Solves (x ++ s) → q.Solves (x ++ s') → s = s') ∧
      (∀ y, (∀ v ∈ y, 0 ≤ v) → q.Solves y →
        ∀ c ∈ p.constraints, c.Holds (y.take p.numVariables)) ∧
      ∀ x s, x.length = p.numVariables → (x ++ s).length = q.numColumns →
        form q.objective (x ++ s) =
          match p.sense with
          | .minimize => form p.objective x
          | .maximize => -form p.objective x := by
  refine ⟨p.toStandardForm_eq_matrixForm_field, ⟨?_, exists_toStandardForm⟩, ?_⟩
  · rintro ⟨q, hq⟩
    exact (toStandardForm_eq_ok hq).1
  · intro q hq
    refine ⟨?_, ?_, ?_, ?_⟩
    · rw [numColumns_of_toStandardForm hq, length_slacks]
    · intro x hx hx₀
      refine ⟨⟨fun hholds => ?_, ?_⟩, fun s s' hs hs' => ?_⟩
      · have hfeasible := feasible_append_slackValues hq ⟨hx, hx₀, hholds⟩
        exact ⟨_, fun v hv => hfeasible.nonneg v (List.mem_append_right x hv), hfeasible.toSolves⟩
      · rintro ⟨s, hs₀, hs⟩
        have hnonneg : ∀ v ∈ x ++ s, 0 ≤ v := List.forall_mem_append.2 ⟨hx₀, hs₀⟩
        have hholds := (feasible_take hq ⟨hs, hnonneg⟩).holds
        rwa [List.take_left' hx] at hholds
      · rw [eq_slackValues hq hx hs, eq_slackValues hq hx hs']
    · intro y hy₀ hy
      exact (feasible_take hq ⟨hy, hy₀⟩).holds
    · intro x s hx hlength
      have hform := form_standardObjective hq hlength
      rw [List.take_left' hx] at hform
      cases hsense : p.sense with
      | minimize =>
        rw [hsense] at hform
        exact hform
      | maximize =>
        rw [hsense] at hform
        exact hform

/-- Maximize `x` subject to `x + 2 * y ≥ 4`, `x - y = 1` and `x + y ≤ 5`. -/
def mixed : Problem ℚ where
  names := ["x", "y"]
  sense := .maximize
  objective := [1, 0]
  constraints :=
    [⟨"floor", [1, 2], .ge, 4⟩, ⟨"gap", [1, -1], .eq, 1⟩, ⟨"cap", [1, 1], .le, 5⟩]

theorem toStandardForm_equivalent_mixed : ∃ q, mixed.toStandardForm = .ok q ∧
    mixed.matrixForm = .ok q ∧ q.numColumns = 4 ∧
    (∃ s, (∀ v ∈ s, 0 ≤ v) ∧ q.Solves ([3, 2] ++ s) ∧ form q.objective ([3, 2] ++ s) = -3 ∧
      ∀ s', q.Solves ([3, 2] ++ s') → s' = s) ∧
    ¬ ∃ s, (∀ v ∈ s, 0 ≤ v) ∧ q.Solves ([4, 3] ++ s) := by
  obtain ⟨hmatrix, hok, hforms⟩ := toStandardForm_equivalent mixed
  obtain ⟨q, hq⟩ := hok.2 (by decide +kernel)
  obtain ⟨hcolumns, hpoints, _, hobjective⟩ := hforms q hq
  have hinside : ∀ c ∈ mixed.constraints, c.Holds [3, 2] := by
    norm_num [mixed, Constraint.Holds]
  have houtside : ¬ ∀ c ∈ mixed.constraints, c.Holds [4, 3] := by
    norm_num [mixed, Constraint.Holds]
  obtain ⟨⟨hextends, _⟩, hunique⟩ := hpoints [3, 2] rfl (by decide +kernel)
  obtain ⟨s, hs₀, hs⟩ := hextends hinside
  refine ⟨q, hq, hmatrix.symm.trans hq, hcolumns, ⟨s, hs₀, hs, ?_, fun s' hs' => hunique s' s hs' hs⟩, ?_⟩
  · rw [hobjective [3, 2] s rfl hs.length_eq]
    norm_num [mixed]
  · exact mt (hpoints [4, 3] rfl (by decide +kernel)).1.2 houtside

end Problem
end PenaltySimplex
