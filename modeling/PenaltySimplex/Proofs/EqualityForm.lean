import PenaltySimplex.Proofs.Program

/-!
# PenaltySimplex.Proofs.EqualityForm

A general problem and its equality form have the same feasible points, up to the extra columns.

* A feasible point of the equality form, cut to the problem's own variables, is feasible
  (`feasible_take`): an extra column adds to a `≤` row and takes from a `≥` row.
* A feasible point of the problem extends by the room that it leaves in each inequality
  (`feasible_append_slackValues`).
* The objective is the same, negated if the problem maximizes (`form_standardObjective`).
-/

namespace PenaltySimplex

open Linear

namespace Linear

variable {K : Type} [Field K] {ι : Type}

theorem form_filterMap (f : ι → Option K) (a b : ι → K → K) (l : List ι) :
    form (l.filterMap fun i => (f i).map (a i)) (l.filterMap fun i => (f i).map (b i)) =
      (l.map fun i => (f i).elim 0 fun s => a i s * b i s).sum := by
  induction l with
  | nil => simp
  | cons i l ih =>
    cases h : f i with
    | none =>
      rw [List.filterMap_cons_none (by rw [h]; rfl), List.filterMap_cons_none (by rw [h]; rfl), ih]
      simp [h]
    | some s =>
      rw [List.filterMap_cons_some (by rw [h]; rfl), List.filterMap_cons_some (by rw [h]; rfl),
        form_cons, ih]
      simp [h]

theorem sum_zipIdx_ite (f : ι → K) (l : List ι) (n i : Nat) :
    ((l.zipIdx n).map fun x => if x.2 = n + i then f x.1 else 0).sum = (l[i]?.map f).getD 0 := by
  induction l generalizing n i with
  | nil => simp
  | cons a l ih =>
    rw [List.zipIdx_cons, List.map_cons, List.sum_cons]
    cases i with
    | zero =>
      have hrest : ((l.zipIdx (n + 1)).map fun x => if x.2 = n + 0 then f x.1 else 0).sum = 0 := by
        refine List.sum_eq_zero ?_
        intro v hv
        obtain ⟨⟨b, k⟩, hb, rfl⟩ := List.mem_map.1 hv
        have hk := List.le_snd_of_mem_zipIdx hb
        exact if_neg (by simp only at hk ⊢; omega)
      rw [hrest]
      simp
    | succ i =>
      have hshift := ih (n + 1) i
      rw [show n + 1 + i = n + (i + 1) by omega] at hshift
      rw [hshift]
      simp

end Linear

variable {K : Type} [Field K] [LinearOrder K]

/-- What the extra columns may add to a row with this comparison. -/
def Comparison.Admits (c : Comparison) (extra : K) : Prop :=
  match c with
  | .le => 0 ≤ extra
  | .ge => extra ≤ 0
  | .eq => extra = 0

namespace Constraint

variable [IsStrictOrderedRing K] {c : Constraint K} {x : List K}

theorem Holds.slack_nonneg (h : c.Holds x) {s : K} (hs : c.comparison.slackSign? = some s) :
    0 ≤ s * (c.rhs - form c.coefficients x) := by
  unfold Holds at h
  cases hcmp : c.comparison with
  | le =>
    rw [hcmp] at h hs
    cases hs
    rw [one_mul]
    exact sub_nonneg.2 h
  | ge =>
    rw [hcmp] at h hs
    cases hs
    rw [neg_one_mul, neg_sub]
    exact sub_nonneg.2 h
  | eq =>
    rw [hcmp] at hs
    cases hs

theorem holds_of_add_eq {extra : K} (h : form c.coefficients x + extra = c.rhs)
    (hextra : c.comparison.Admits extra) : c.Holds x := by
  unfold Comparison.Admits at hextra
  unfold Holds
  cases hcmp : c.comparison with
  | le =>
    rw [hcmp] at hextra
    exact h ▸ le_add_of_nonneg_right hextra
  | ge =>
    rw [hcmp] at hextra
    exact h ▸ add_le_of_nonpos_right hextra
  | eq =>
    rw [hcmp] at hextra
    rw [← h, hextra, add_zero]

end Constraint

namespace Problem

section Accepted

variable {α : Type} [Scalar α] {p : Problem α} {q : StandardForm α}

theorem toStandardForm_eq_ok (h : p.toStandardForm = .ok q) :
    p.validate = .ok () ∧ q.objective = p.standardObjective ∧
      q.equations = p.standardEquations := by
  unfold toStandardForm at h
  split at h
  · cases h
  · cases h
    exact ⟨‹_›, rfl, rfl⟩

theorem exists_toStandardForm (h : p.validate = .ok ()) : ∃ q, p.toStandardForm = .ok q := by
  unfold toStandardForm
  split
  · rename_i e he
    rw [h] at he
    cases he
  · exact ⟨_, rfl⟩

theorem numColumns_of_toStandardForm (h : p.toStandardForm = .ok q) :
    q.numColumns = p.numVariables + p.slacks.length := by
  obtain ⟨hvalid, hobjective, _⟩ := toStandardForm_eq_ok h
  rw [StandardForm.numColumns, hobjective, length_standardObjective,
    (validate_eq_ok_iff.1 hvalid).1.1]

end Accepted

variable {p : Problem K} {q : StandardForm K}

theorem slackEntries_eq (p : Problem K) (i : Nat) :
    p.slackEntries i = p.constraints.zipIdx.filterMap fun x =>
      x.1.comparison.slackSign?.map fun s => if x.2 = i then s else 0 := by
  rw [slackEntries, slacks, List.map_filterMap]
  simp only [Option.map_map]
  rfl

/-- The room that `x` leaves in each inequality, in the order of the extra columns. -/
def slackValues (p : Problem K) (x : List K) : List K :=
  p.constraints.zipIdx.filterMap fun y =>
    y.1.comparison.slackSign?.map fun s => s * (y.1.rhs - form y.1.coefficients x)

theorem length_slackValues (p : Problem K) (x : List K) :
    (p.slackValues x).length = p.slacks.length := by
  rw [slackValues, slacks, List.length_filterMap_eq_countP, List.length_filterMap_eq_countP]
  simp only [Option.isSome_map]

theorem mem_standardEquations {e : Equation K} :
    e ∈ p.standardEquations ↔ ∃ i c, p.constraints[i]? = some c ∧
      e = ⟨c.coefficients ++ p.slackEntries i, c.rhs⟩ := by
  rw [standardEquations, List.mem_map]
  constructor
  · rintro ⟨⟨c, i⟩, hc, rfl⟩
    exact ⟨i, c, List.mk_mem_zipIdx_iff_getElem?.1 hc, rfl⟩
  · rintro ⟨i, c, hc, rfl⟩
    exact ⟨(c, i), List.mk_mem_zipIdx_iff_getElem?.2 hc, rfl⟩

theorem eq_or_of_mem_slackEntries {i : Nat} {c : Constraint K}
    (hc : p.constraints[i]? = some c) {v : K} (hv : v ∈ p.slackEntries i) :
    v = 0 ∨ c.comparison.slackSign? = some v := by
  rw [slackEntries_eq, List.mem_filterMap] at hv
  obtain ⟨⟨b, k⟩, hb, hv⟩ := hv
  obtain ⟨s, hs, rfl⟩ := Option.map_eq_some_iff.1 hv
  by_cases hk : k = i
  · have hbc : b = c := by
      rw [List.mk_mem_zipIdx_iff_getElem?] at hb
      rw [hk, hc] at hb
      exact (Option.some.inj hb).symm
    exact Or.inr (by rw [if_pos hk, ← hbc, hs])
  · exact Or.inl (if_neg hk)

/-- The extra columns take up exactly the room that a point leaves in an inequality. -/
theorem form_slackValues {i : Nat} {c : Constraint K} (hc : p.constraints[i]? = some c)
    (x : List K) :
    form (p.slackEntries i) (p.slackValues x) =
      match c.comparison with
      | .eq => 0
      | _ => c.rhs - form c.coefficients x := by
  have hsum := sum_zipIdx_ite (fun c : Constraint K => (c.comparison.slackSign? : Option K).elim 0
    fun s => s * (s * (c.rhs - form c.coefficients x))) p.constraints 0 i
  rw [hc, Option.map_some, Option.getD_some, Nat.zero_add] at hsum
  rw [slackEntries_eq, slackValues, form_filterMap _
    (fun (y : Constraint K × Nat) s => if y.2 = i then s else 0)]
  trans
  · refine Eq.trans (congrArg List.sum (List.map_congr_left fun y _ => ?_)) hsum
    cases (y.1.comparison.slackSign? : Option K) with
    | none => simp
    | some s => simp
  · cases c.comparison with
    | le => simp [Comparison.slackSign?]
    | ge => simp [Comparison.slackSign?]
    | eq => simp [Comparison.slackSign?]

theorem admits_form_slackEntries [IsStrictOrderedRing K] {i : Nat} {c : Constraint K}
    (hc : p.constraints[i]? = some c) {s : List K} (hs : ∀ v ∈ s, 0 ≤ v) :
    c.comparison.Admits (form (p.slackEntries i) s) := by
  have hentries : ∀ v ∈ p.slackEntries i, v = 0 ∨ c.comparison.slackSign? = some v :=
    fun v hv => eq_or_of_mem_slackEntries hc hv
  unfold Comparison.Admits
  cases hcmp : c.comparison with
  | le =>
    rw [hcmp] at hentries
    refine form_nonneg ?_ hs
    intro v hv
    rcases hentries v hv with rfl | hv
    · exact le_rfl
    · cases hv
      exact zero_le_one
  | ge =>
    rw [hcmp] at hentries
    have hneg : 0 ≤ form ((p.slackEntries i).map fun a => -a) s := by
      refine form_nonneg ?_ hs
      intro v hv
      obtain ⟨w, hw, rfl⟩ := List.mem_map.1 hv
      rcases hentries w hw with rfl | hw
      · exact neg_zero.ge
      · cases hw
        rw [neg_neg]
        exact zero_le_one
    rw [form_neg] at hneg
    exact neg_nonneg.1 hneg
  | eq =>
    rw [hcmp] at hentries
    refine form_eq_zero ?_ s
    intro v hv
    rcases hentries v hv with rfl | hv
    · rfl
    · cases hv

section Accepted

variable (h : p.toStandardForm = .ok q)

include h

theorem form_standardObjective {y : List K} (hy : y.length = q.numColumns) :
    form q.objective y =
      match p.sense with
      | .minimize => form p.objective (y.take p.numVariables)
      | .maximize => -form p.objective (y.take p.numVariables) := by
  obtain ⟨hvalid, hobjective, _⟩ := toStandardForm_eq_ok h
  have hlen := (validate_eq_ok_iff.1 hvalid).1.1
  have htake : (y.take p.numVariables).length = p.objective.length := by
    rw [List.length_take, hy, numColumns_of_toStandardForm h, hlen]
    omega
  rw [hobjective, standardObjective]
  conv_lhs => rw [← List.take_append_drop p.numVariables y]
  have hzero := form_eq_zero (c := List.replicate p.slacks.length (0 : K))
    (fun a ha => List.eq_of_mem_replicate ha) (y.drop p.numVariables)
  cases p.sense with
  | minimize => rw [form_append htake.symm, hzero, add_zero]
  | maximize => rw [form_append (by rw [List.length_map, htake]), hzero, add_zero, form_neg]

theorem form_standardEquation {i : Nat} {c : Constraint K} (hc : p.constraints[i]? = some c)
    {x s : List K} (hx : x.length = p.numVariables) :
    form (c.coefficients ++ p.slackEntries i) (x ++ s) =
      form c.coefficients x + form (p.slackEntries i) s := by
  obtain ⟨hvalid, _⟩ := toStandardForm_eq_ok h
  have hmem := List.mem_of_getElem? hc
  exact form_append (((validate_eq_ok_iff.1 hvalid).2 c hmem).1.trans hx.symm) _ _

variable [IsStrictOrderedRing K]

theorem feasible_take {y : List K} (hy : q.Feasible y) :
    p.Feasible (y.take p.numVariables) where
  length_eq := by
    rw [List.length_take, hy.length_eq, numColumns_of_toStandardForm h]
    omega
  nonneg v hv := hy.nonneg v (List.mem_of_mem_take hv)
  holds c hc := by
    obtain ⟨i, hi⟩ := List.mem_iff_getElem?.1 hc
    have hrow := hy.holds ⟨c.coefficients ++ p.slackEntries i, c.rhs⟩ (by
      rw [(toStandardForm_eq_ok h).2.2]
      exact mem_standardEquations.2 ⟨i, c, hi, rfl⟩)
    have htake : (y.take p.numVariables).length = p.numVariables := by
      rw [List.length_take, hy.length_eq, numColumns_of_toStandardForm h]
      omega
    rw [← List.take_append_drop p.numVariables y] at hrow
    simp only at hrow
    rw [form_standardEquation h hi htake] at hrow
    refine Constraint.holds_of_add_eq hrow (admits_form_slackEntries hi ?_)
    intro v hv
    exact hy.nonneg v (List.mem_of_mem_drop hv)

theorem feasible_append_slackValues {x : List K} (hx : p.Feasible x) :
    q.Feasible (x ++ p.slackValues x) where
  length_eq := by
    rw [List.length_append, hx.length_eq, length_slackValues, numColumns_of_toStandardForm h]
  holds e he := by
    rw [(toStandardForm_eq_ok h).2.2] at he
    obtain ⟨i, c, hc, rfl⟩ := mem_standardEquations.1 he
    have hholds := hx.holds c (List.mem_of_getElem? hc)
    unfold Constraint.Holds at hholds
    simp only
    rw [form_standardEquation h hc hx.length_eq, form_slackValues hc]
    cases hcmp : c.comparison with
    | le => exact add_sub_cancel _ _
    | ge => exact add_sub_cancel _ _
    | eq =>
      rw [hcmp] at hholds
      simpa using hholds
  nonneg v hv := by
    rcases List.mem_append.1 hv with hv | hv
    · exact hx.nonneg v hv
    · obtain ⟨⟨c, i⟩, hc, hv⟩ := List.mem_filterMap.1 hv
      have hmem := List.mem_of_getElem? (List.mk_mem_zipIdx_iff_getElem?.1 hc)
      obtain ⟨s, hs, rfl⟩ := Option.map_eq_some_iff.1 hv
      exact (hx.holds c hmem).slack_nonneg hs

theorem optimal_take {y : List K} (hy : q.Feasible y)
    (hbest : ∀ z, q.Feasible z → form q.objective y ≤ form q.objective z) :
    p.Optimal (y.take p.numVariables) where
  feasible := feasible_take h hy
  best z hz := by
    have hz' := feasible_append_slackValues h hz
    have hle := hbest _ hz'
    rw [form_standardObjective h hy.length_eq,
      form_standardObjective h hz'.length_eq, List.take_left' hz.length_eq] at hle
    unfold Sense.AtLeastAsGood
    cases hsense : p.sense with
    | minimize =>
      rw [hsense] at hle
      exact hle
    | maximize =>
      rw [hsense] at hle
      exact neg_le_neg_iff.1 hle

end Accepted

end Problem
end PenaltySimplex
