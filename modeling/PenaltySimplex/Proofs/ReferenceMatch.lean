import PenaltySimplex.Proofs.FloatOrder
import PenaltySimplex.Verification

/-!
# PenaltySimplex.Proofs.ReferenceMatch

When a solution matches a reference, over all doubles. The largest difference of two values is kept
by comparisons, so a difference that is not a number is passed over: `maximum_lt_iff` says what it
means that the largest entry is below a bound. `verify_isMatch_iff` is what a match means for every
component, and `verify_isMatch_of_nan` a match with a value that is not a number.
-/

namespace PenaltySimplex

/-! ## The largest entry -/

theorem lt_trans_float {x y z : Float} (hxy : x < y) (hyz : y < z) : x < z := by
  obtain ⟨hx, _, hplaces⟩ := (lt_iff x y).1 hxy
  obtain ⟨_, hz, hplaces'⟩ := (lt_iff y z).1 hyz
  exact (lt_iff x z).2 ⟨hx, hz, hplaces.trans hplaces'⟩

/-- The larger of two values, the second of which may be no number, is below a bound exactly if
the first is and the second is or compares with nothing. -/
theorem larger_lt_iff {most x t : Float} (hmost : most.isNaN = false) :
    (if most < x then x else most) < t ↔ most < t ∧ (x.isNaN = true ∨ x < t) := by
  by_cases hlt : most < x
  · rw [if_pos hlt]
    constructor
    · intro hx
      exact ⟨lt_trans_float hlt hx, Or.inr hx⟩
    · rintro ⟨_, hnan | hx⟩
      · rw [((lt_iff most x).1 hlt).2.1] at hnan
        cases hnan
      · exact hx
  · rw [if_neg hlt]
    refine ⟨fun hbound => ⟨hbound, ?_⟩, fun h => h.1⟩
    cases hx : x.isNaN with
    | true => exact Or.inl rfl
    | false =>
      obtain ⟨_, ht, hplaces⟩ := (lt_iff most t).1 hbound
      have hle : floatPlace x ≤ floatPlace most :=
        not_lt.1 fun hplace => hlt ((lt_iff most x).2 ⟨hmost, hx, hplace⟩)
      exact Or.inr ((lt_iff x t).2 ⟨hx, ht, hle.trans_lt hplaces⟩)

theorem isNaN_larger {most x : Float} (hmost : most.isNaN = false) :
    (if most < x then x else most).isNaN = false := by
  split
  · rename_i hlt
    exact ((lt_iff most x).1 hlt).2.1
  · exact hmost

theorem foldl_larger_lt_iff {most t : Float} (hmost : most.isNaN = false) (xs : List Float) :
    xs.foldl (fun most x => if most < x then x else most) most < t ↔
      most < t ∧ ∀ x ∈ xs, x.isNaN = true ∨ x < t := by
  induction xs generalizing most with
  | nil => simp
  | cons x xs ih =>
    rw [List.foldl_cons, ih (isNaN_larger hmost), larger_lt_iff hmost, List.forall_mem_cons,
      and_assoc]

/-- The largest entry passes over what is no number. -/
theorem maximum_lt_iff {t : Float} (ht : 0 < t) (xs : List Float) :
    Scalar.maximum xs < t ↔ ∀ x ∈ xs, x.isNaN = true ∨ x < t := by
  have hzero : (0 : Float).isNaN = false := rfl
  exact (foldl_larger_lt_iff hzero xs).trans (and_iff_right ht)

/-! ## Matches -/

theorem forall_mem_valueDifferences {p : Float → Prop} {values expected : List Float} :
    (∀ x ∈ valueDifferences values expected, p x) ↔
      ∀ i (hi : i < values.length) (hj : i < expected.length), p (values[i] - expected[i]).abs := by
  rw [valueDifferences, List.forall_mem_iff_getElem]
  simp only [List.length_zipWith, List.getElem_zipWith, lt_inf_iff]
  exact forall_congr' fun i => ⟨fun h hi hj => h ⟨hi, hj⟩, fun h hij => h hij.1 hij.2⟩

/-- The difference of two values is no number: one of them is none, or both are the same
infinity. -/
def Indistinct (a b : Float) : Prop :=
  a.isNaN = true ∨ b.isNaN = true ∨ a.isInf = true ∧ (a == b) = true

instance (a b : Float) : Decidable (Indistinct a b) :=
  inferInstanceAs (Decidable (_ ∨ _ ∨ _ ∧ _))

theorem isNaN_abs_sub_iff (a b : Float) : (a - b).abs.isNaN = true ↔ Indistinct a b := by
  rw [isNaN_abs, isNaN_sub_iff, Indistinct]

/-- What is said of an objective value and of as many values as the reference has. -/
def comparison (objective : Float) (values : List Float) (r : Reference Float)
    (tolerance : Float) : Verification Float where
  objectiveDifference := (objective - r.objective).abs
  solutionDifference := Scalar.maximum (valueDifferences values r.values)
  objectiveMatch := (objective - r.objective).abs < tolerance
  solutionMatch := Scalar.maximum (valueDifferences values r.values) < tolerance

theorem verify_eq_ok_iff {s : Solution Float} {r : Reference Float} {tolerance : Float}
    {v : Verification Float} :
    verify s r tolerance = .ok v ↔ s.status = .optimal ∧ ∃ values objective,
      s.values = some values ∧ s.objectiveValue = some objective ∧
      values.length = r.values.length ∧ comparison objective values r tolerance = v := by
  obtain ⟨status, values?, objective?, iterations⟩ := s
  constructor
  · intro hok
    simp only [verify] at hok
    split at hok
    · rename_i values objective
      split at hok
      · cases hok
      · rename_i hlength
        exact ⟨rfl, values, objective, rfl, rfl, not_not.1 hlength, Except.ok.inj hok⟩
    · cases hok
  · rintro ⟨rfl, values, objective, rfl, rfl, hlength, rfl⟩
    exact if_neg (not_not.2 hlength)

theorem isMatch_comparison_iff (objective : Float) (values : List Float) (r : Reference Float)
    {tolerance : Float} (h : 0 < tolerance) :
    (comparison objective values r tolerance).isMatch = true ↔
      (objective - r.objective).abs < tolerance ∧
        ∀ i (hi : i < values.length) (hj : i < r.values.length),
          Indistinct values[i] r.values[i] ∨ (values[i] - r.values[i]).abs < tolerance := by
  rw [Verification.isMatch, Bool.and_eq_true, comparison, decide_eq_true_iff, decide_eq_true_iff,
    maximum_lt_iff h, forall_mem_valueDifferences]
  simp only [isNaN_abs_sub_iff]

/-- A solution matches a reference exactly if it is optimal, its objective value is near, and it
has as many values, each of which is near or has a difference that is no number. -/
theorem verify_isMatch_iff (s : Solution Float) (r : Reference Float) {tolerance : Float}
    (h : 0 < tolerance) :
    (∃ v, verify s r tolerance = .ok v ∧ v.isMatch = true) ↔
      s.status = .optimal ∧ ∃ values objective, s.values = some values ∧
        s.objectiveValue = some objective ∧ values.length = r.values.length ∧
        (objective - r.objective).abs < tolerance ∧
        ∀ i (hi : i < values.length) (hj : i < r.values.length),
          Indistinct values[i] r.values[i] ∨ (values[i] - r.values[i]).abs < tolerance := by
  simp only [verify_eq_ok_iff]
  constructor
  · rintro ⟨_, ⟨hstatus, values, objective, hvalues, hobjective, hlength, rfl⟩, hmatch⟩
    have hnear := (isMatch_comparison_iff objective values r h).1 hmatch
    exact ⟨hstatus, values, objective, hvalues, hobjective, hlength, hnear⟩
  · rintro ⟨hstatus, values, objective, hvalues, hobjective, hlength, hnear⟩
    have hmatch := (isMatch_comparison_iff objective values r h).2 hnear
    exact ⟨_, ⟨hstatus, values, objective, hvalues, hobjective, hlength, rfl⟩, hmatch⟩

/-- A value near the reference, an infinity in both and one value that is not a number. -/
theorem verify_isMatch_mixed :
    0 < defaultVerifyTolerance ∧
      ∃ v, verify (.optimal [1, 1 / 0, 0 / 0] (-3) 2) ⟨-3.0005, [1.0005, 1 / 0, 7]⟩
        defaultVerifyTolerance = .ok v ∧ v.isMatch = true := by
  have hpos : 0 < defaultVerifyTolerance := by decide +kernel
  have hobjective : ((-3) - (-3.0005) : Float).abs < defaultVerifyTolerance := by decide +kernel
  have hnear : (1 - 1.0005 : Float).abs < defaultVerifyTolerance := by decide +kernel
  have hinfinite : Indistinct (1 / 0) (1 / 0) := by decide +kernel
  have hnan : Indistinct (0 / 0) 7 := by decide +kernel
  refine ⟨hpos, (verify_isMatch_iff _ _ hpos).2 ⟨rfl, _, _, rfl, rfl, rfl, hobjective, ?_⟩⟩
  rintro (_ | _ | _ | i) hi hj
  · exact Or.inr hnear
  · exact Or.inl hinfinite
  · exact Or.inl hnan
  · exact absurd hi (by simp)

/-- The only value is not a number, and still there is a match. -/
theorem verify_isMatch_of_nan :
    ∃ v, verify (.optimal [0 / 0] 0 0) ⟨0, [0]⟩ defaultVerifyTolerance = .ok v ∧
      v.isMatch = true ∧ ¬((0 / 0 : Float) - 0).abs < defaultVerifyTolerance :=
  ⟨_, rfl, by decide +kernel, by decide +kernel⟩

end PenaltySimplex
