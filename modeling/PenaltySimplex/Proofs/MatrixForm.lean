import PenaltySimplex.Proofs.EqualityForm
import PenaltySimplex.Proofs.FiniteFloat

/-!
# PenaltySimplex.Proofs.MatrixForm

The equality form of a problem, made from its matrix.

A matrix is refused if its sizes do not match or if an entry is not finite
(`StandardForm.ofMatrix`). The equality form of a problem that `validate` accepts is never
refused: negated coefficients, signs and zeros are finite as well, so the form made from the
matrix is the form made row by row, for doubles (`toStandardForm_eq_matrixForm`) and in a field
(`toStandardForm_eq_matrixForm_field`).
-/

namespace PenaltySimplex

namespace StandardForm

theorem ext_of_eq {α : Type} {p q : StandardForm α} (hobjective : p.objective = q.objective)
    (hequations : p.equations = q.equations) : p = q := by
  cases p
  cases q
  cases hobjective
  cases hequations
  rfl

variable {α : Type} [Scalar α]

theorem ofMatrix_eq_ok {objective rhs : List α} {m n : Nat} {entry : Nat → Nat → α}
    (hn : n = objective.length) (hm : m = rhs.length)
    (hobjective : ∀ c ∈ objective, Scalar.isFinite c = true)
    (hrhs : ∀ b ∈ rhs, Scalar.isFinite b = true)
    (hentry : ∀ i < m, ∀ j < n, Scalar.isFinite (entry i j) = true) :
    ∃ q, ofMatrix objective m n entry rhs = .ok q ∧ q.objective = objective ∧
      q.equations = rhs.zipIdx.map fun (b, i) => ⟨(List.range n).map (entry i), b⟩ := by
  subst hn hm
  have hrows : (List.range rhs.length).all
      (fun i => ((List.range objective.length).map (entry i)).all Scalar.isFinite) = true := by
    simp only [List.all_eq_true, List.mem_range, List.forall_mem_map]
    exact hentry
  rw [ofMatrix, if_neg (not_not.2 rfl), if_neg (not_not.2 rfl)]
  simp only
  rw [if_pos]
  · exact ⟨_, rfl, rfl, rfl⟩
  · rw [hrows, List.all_eq_true.2 hobjective, List.all_eq_true.2 hrhs]
    rfl

end StandardForm

namespace Problem

section Matrix

variable {α : Type} [Scalar α]

/-- An entry of the matrix: the coefficient of a variable, or of an extra column. -/
def matrixEntry (p : Problem α) (i j : Nat) : α :=
  if j < p.numVariables then ((p.constraints.map Constraint.coefficients).getD i []).getD j 0
  else (p.slackEntries i).getD (j - p.numVariables) 0

/-- The equality form, made from its matrix and checked as a matrix. -/
def matrixForm (p : Problem α) : Except ModelError (StandardForm α) :=
  match p.validate with
  | .error e => .error e
  | .ok () =>
    StandardForm.ofMatrix p.standardObjective p.numConstraints (p.numVariables + p.slacks.length)
      p.matrixEntry (p.constraints.map Constraint.rhs)

theorem getD_append_eq (l k : List α) (j : Nat) :
    (l ++ k).getD j 0 = if j < l.length then l.getD j 0 else k.getD (j - l.length) 0 := by
  split
  · rename_i h
    exact List.getD_append l k 0 j h
  · rename_i h
    exact List.getD_append_right l k 0 j (Nat.le_of_not_lt h)

theorem matrixEntry_eq {p : Problem α} (h : p.validate = .ok ()) {i : Nat} {c : Constraint α}
    (hc : p.constraints[i]? = some c) (j : Nat) :
    p.matrixEntry i j = (c.coefficients ++ p.slackEntries i).getD j 0 := by
  have hlength := ((validate_eq_ok_iff.1 h).2 c (List.mem_of_getElem? hc)).1
  have hrow : (p.constraints.map Constraint.coefficients).getD i [] = c.coefficients := by
    rw [List.getD_eq_getElem?_getD, List.getElem?_map, hc]
    rfl
  rw [getD_append_eq, matrixEntry, hrow, hlength]

theorem standardEquations_eq {p : Problem α} (h : p.validate = .ok ()) :
    p.standardEquations = (p.constraints.map Constraint.rhs).zipIdx.map fun (b, i) =>
      ⟨(List.range (p.numVariables + p.slacks.length)).map (p.matrixEntry i), b⟩ := by
  rw [standardEquations, List.zipIdx_map, List.map_map]
  refine List.map_congr_left ?_
  rintro ⟨c, i⟩ hc
  have hc' := List.mk_mem_zipIdx_iff_getElem?.1 hc
  have hlength := ((validate_eq_ok_iff.1 h).2 c (List.mem_of_getElem? hc')).1
  have hwidth : (c.coefficients ++ p.slackEntries i).length = p.numVariables + p.slacks.length := by
    rw [List.length_append, hlength, slackEntries, List.length_map]
  have hrow := Linear.point_getD hwidth
  simp only [Function.comp_apply, Prod.map_apply, id_eq, Equation.mk.injEq, and_true]
  rw [← hrow]
  exact List.map_congr_left fun j _ => (matrixEntry_eq h hc' j).symm

/-- The check of the matrix never refuses what `validate` accepts, if negated coefficients, signs
and zeros are finite. -/
theorem exists_matrixForm {p : Problem α} (h : p.validate = .ok ())
    (hobjective : ∀ c ∈ p.standardObjective, Scalar.isFinite c = true)
    (hentry : ∀ i < p.numConstraints, ∀ j, Scalar.isFinite (p.matrixEntry i j) = true) :
    ∃ q, p.matrixForm = .ok q ∧ q.objective = p.standardObjective ∧
      q.equations = p.standardEquations := by
  have hlength := (validate_eq_ok_iff.1 h).1.1
  have hcolumns : p.numVariables + p.slacks.length = p.standardObjective.length := by
    rw [length_standardObjective, hlength]
  have hrows : p.numConstraints = (p.constraints.map Constraint.rhs).length := by
    rw [List.length_map, numConstraints]
  have hrhs : ∀ b ∈ p.constraints.map Constraint.rhs, Scalar.isFinite b = true := by
    rw [List.forall_mem_map]
    exact fun c hc => ((validate_eq_ok_iff.1 h).2 c hc).2.1
  obtain ⟨q, hq, hobjective', hequations⟩ := StandardForm.ofMatrix_eq_ok hcolumns hrows
    hobjective hrhs fun i hi j _ => hentry i hi j
  refine ⟨q, ?_, hobjective', hequations.trans (standardEquations_eq h).symm⟩
  rw [matrixForm, h]
  exact hq

theorem toStandardForm_eq_matrixForm_of {p : Problem α}
    (h : p.validate = .ok () → ∃ q, p.matrixForm = .ok q ∧ q.objective = p.standardObjective ∧
      q.equations = p.standardEquations) : p.toStandardForm = p.matrixForm := by
  cases hvalid : p.validate with
  | error e =>
    rw [matrixForm, hvalid]
    unfold toStandardForm
    split
    · rename_i e' h'
      rw [hvalid] at h'
      cases h'
      rfl
    · rename_i h'
      rw [hvalid] at h'
      cases h'
  | ok u =>
    obtain ⟨q, hq⟩ := exists_toStandardForm hvalid
    obtain ⟨q', hq', hobjective', hequations'⟩ := h hvalid
    obtain ⟨_, hobjective, hequations⟩ := toStandardForm_eq_ok hq
    rw [hq, hq', StandardForm.ext_of_eq (hobjective.trans hobjective'.symm)
      (hequations.trans hequations'.symm)]

end Matrix

/-- In a field every number is finite. -/
theorem toStandardForm_eq_matrixForm_field {K : Type} [Field K] [LinearOrder K] (p : Problem K) :
    p.toStandardForm = p.matrixForm :=
  toStandardForm_eq_matrixForm_of fun h => exists_matrixForm h (fun _ _ => rfl) fun _ _ _ => rfl

theorem isFinite_zero : Scalar.isFinite (0 : Float) = true := by decide +kernel

theorem isFinite_of_mem_standardObjective {p : Problem Float} (h : p.validate = .ok ()) :
    ∀ c ∈ p.standardObjective, Scalar.isFinite c = true := by
  have hobjective := (validate_eq_ok_iff.1 h).1.2
  intro c hc
  obtain hc | hc := List.mem_append.1 hc
  · cases hsense : p.sense with
    | minimize =>
      rw [hsense] at hc
      exact hobjective c hc
    | maximize =>
      rw [hsense] at hc
      obtain ⟨a, ha, rfl⟩ := List.mem_map.1 hc
      exact (isFinite_neg a).trans (hobjective a ha)
  · rw [List.eq_of_mem_replicate hc]
    exact isFinite_zero

theorem isFinite_of_slackSign {c : Comparison} {s : Float} (h : c.slackSign? = some s) :
    Scalar.isFinite s = true := by
  cases c with
  | le => cases h; decide +kernel
  | ge => cases h; decide +kernel
  | eq => cases h

theorem isFinite_of_mem_slackEntries {p : Problem Float} {i : Nat} :
    ∀ a ∈ p.slackEntries i, Scalar.isFinite a = true := by
  intro a ha
  obtain ⟨⟨row, s⟩, hs, rfl⟩ := List.mem_map.1 ha
  obtain ⟨⟨c, k⟩, _, hc⟩ := List.mem_filterMap.1 hs
  obtain ⟨sign, hsign, hpair⟩ := Option.map_eq_some_iff.1 hc
  obtain ⟨_, rfl⟩ := Prod.mk.inj hpair
  simp only
  split
  · exact isFinite_of_slackSign hsign
  · exact isFinite_zero

theorem isFinite_getD {l : List Float} (h : ∀ a ∈ l, Scalar.isFinite a = true) (j : Nat) :
    Scalar.isFinite (l.getD j 0) = true := by
  by_cases hj : j < l.length
  · rw [List.getD_eq_getElem l 0 hj]
    exact h _ (List.getElem_mem hj)
  · rw [List.getD_eq_default l 0 (Nat.le_of_not_lt hj)]
    exact isFinite_zero

theorem isFinite_matrixEntry {p : Problem Float} (h : p.validate = .ok ()) {i : Nat}
    (hi : i < p.numConstraints) (j : Nat) : Scalar.isFinite (p.matrixEntry i j) = true := by
  have hc : p.constraints[i]? = some p.constraints[i] := List.getElem?_eq_getElem hi
  obtain ⟨_, _, hcoefficients⟩ := (validate_eq_ok_iff.1 h).2 _ (List.getElem_mem hi)
  rw [matrixEntry_eq h hc]
  refine isFinite_getD (fun a ha => ?_) j
  obtain ha | ha := List.mem_append.1 ha
  · exact hcoefficients a ha
  · exact isFinite_of_mem_slackEntries a ha

theorem toStandardForm_eq_matrixForm (p : Problem Float) : p.toStandardForm = p.matrixForm :=
  toStandardForm_eq_matrixForm_of fun h => exists_matrixForm h
    (isFinite_of_mem_standardObjective h) fun _ hi => isFinite_matrixEntry h hi

end Problem

end PenaltySimplex
