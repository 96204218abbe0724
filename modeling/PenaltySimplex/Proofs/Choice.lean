import PenaltySimplex.Proofs.Exchange

/-!
# PenaltySimplex.Proofs.Choice

What the rule chooses. A tolerance `Resolves` a dictionary when it tells apart whatever the rule
compares there: negative reduced costs, positive entries and different ratios. The tolerance zero
resolves every dictionary.

Under a tolerance that resolves the dictionary, a run stops with all reduced costs nonnegative
(`Resolves.reducedCost_nonneg`) or with an improving column that has no positive entry
(`Resolves.unbounded_of_choose`), and otherwise exchanges at a place of smallest ratio (`IsPivot`,
`Resolves.isPivot_of_choose`). A positive tolerance also breaks ties in favour of the smaller basic
variable; at tolerance zero the first row of smallest ratio is taken.
-/

namespace PenaltySimplex

variable {K : Type} [Field K] [LinearOrder K]

namespace Tableau

theorem entering?_eq_some {eps : K} {t : Tableau K} {c : Nat} (h : t.entering? eps = some c) :
    c < t.numVariables ∧ t.entry 0 c < -eps ∧ ∀ j < c, -eps ≤ t.entry 0 j := by
  obtain ⟨hc, hmem, hmin⟩ := List.find?_range_eq_some.1 h
  refine ⟨List.mem_range.1 hmem, of_decide_eq_true hc, ?_⟩
  intro j hj
  have hj' := hmin j hj
  simpa using hj'

theorem entering?_eq_none {eps : K} {t : Tableau K} (h : t.entering? eps = none) :
    ∀ j < t.numVariables, -eps ≤ t.entry 0 j := by
  intro j hj
  have hj' := List.find?_range_eq_none.1 h j hj
  simpa using hj'

end Tableau

/-- A fold that always keeps one of two entries ends on an entry that no entry precedes. -/
theorem foldl_choice {α : Type} {f : α → α → α} {R : α → α → Prop} {s : α → Prop}
    (hf : ∀ x y, f x y = x ∨ f x y = y) (hrefl : ∀ x, R x x)
    (htrans : ∀ x y z, R x y → R y z → R x z)
    (hR : ∀ x y, s x → s y → R (f x y) x ∧ R (f x y) y) (xs : List α) (a : α)
    (hs : ∀ x ∈ a :: xs, s x) :
    xs.foldl f a ∈ a :: xs ∧ ∀ x ∈ a :: xs, R (xs.foldl f a) x := by
  induction xs generalizing a with
  | nil => simpa using hrefl a
  | cons b xs ih =>
    have ha : s a := hs a (by simp)
    have hb : s b := hs b (by simp)
    have hfab : s (f a b) := by
      rcases hf a b with h | h <;> rw [h] <;> assumption
    have hs' : ∀ x ∈ f a b :: xs, s x := by
      intro x hx
      rcases List.mem_cons.1 hx with rfl | hx
      · exact hfab
      · exact hs x (by simp [hx])
    obtain ⟨hmem, hle⟩ := ih (f a b) hs'
    rw [List.foldl_cons]
    constructor
    · rcases List.mem_cons.1 hmem with h | h
      · rw [h]
        rcases hf a b with h' | h' <;> rw [h'] <;> simp
      · simp [h]
    · have hfirst := hle (f a b) (by simp)
      obtain ⟨hRa, hRb⟩ := hR a b ha hb
      intro x hx
      rcases List.mem_cons.1 hx with rfl | hx
      · exact htrans _ _ _ hfirst hRa
      · rcases List.mem_cons.1 hx with rfl | hx
        · exact htrans _ _ _ hfirst hRb
        · exact hle x (by simp [hx])

/-- The ratio test ends on one of the rows that it reads. -/
theorem Tableau.foldl_betterRow_mem (eps : K) (basis : List Nat) (rest : List (Nat × K))
    (first : Nat × K) : rest.foldl (betterRow eps basis) first ∈ first :: rest :=
  (foldl_choice (R := fun _ _ => True) (s := fun _ => True) (betterRow_eq_or eps basis)
    (fun _ => trivial) (fun _ _ _ _ _ => trivial) (fun _ _ _ _ => ⟨trivial, trivial⟩) rest first
    (fun _ _ => trivial)).1

namespace Dictionary

/-- The tolerance tells apart what the rule compares in this dictionary. -/
structure Resolves (eps : K) (d : Dictionary K) : Prop where
  nonneg : 0 ≤ eps
  cost : ∀ j < d.tableau.numVariables, d.tableau.entry 0 j < 0 → d.tableau.entry 0 j < -eps
  entry : ∀ i < d.tableau.numConstraints, ∀ j < d.tableau.numVariables,
    0 < d.tableau.entry (i + 1) j → eps < d.tableau.entry (i + 1) j
  ratio : ∀ i < d.tableau.numConstraints, ∀ k < d.tableau.numConstraints,
    ∀ j < d.tableau.numVariables, 0 < d.tableau.entry (i + 1) j → 0 < d.tableau.entry (k + 1) j →
      d.ratio j i < d.ratio j k → d.ratio j i < d.ratio j k - eps

/-- Variable `c` may enter in constraint row `r`, counted from zero: it is the first with a negative
reduced cost, and the row has the smallest ratio. -/
structure IsPivot (eps : K) (d : Dictionary K) (r c : Nat) : Prop where
  row_lt : r < d.tableau.numConstraints
  column_lt : c < d.tableau.numVariables
  cost_neg : d.tableau.entry 0 c < 0
  cost_nonneg : ∀ j < c, 0 ≤ d.tableau.entry 0 j
  entry_pos : 0 < d.tableau.entry (r + 1) c
  ratio_le : ∀ i < d.tableau.numConstraints, 0 < d.tableau.entry (i + 1) c →
    d.ratio c r ≤ d.ratio c i
  basic_le : 0 < eps → ∀ i < d.tableau.numConstraints, 0 < d.tableau.entry (i + 1) c →
    d.ratio c r = d.ratio c i → d.basic r ≤ d.basic i

variable {eps : K} {d : Dictionary K}

theorem mem_ratios {c : Nat} {x : Nat × K} :
    x ∈ d.tableau.ratios eps c ↔ ∃ i < d.tableau.numConstraints,
      eps < d.tableau.entry (i + 1) c ∧ x = (i + 1, d.ratio c i) := by
  simp only [Tableau.ratios, List.mem_filterMap, List.mem_range'_1]
  constructor
  · rintro ⟨row, ⟨hrow, hlt⟩, hx⟩
    obtain ⟨i, rfl⟩ : ∃ i, row = i + 1 := ⟨row - 1, by omega⟩
    split_ifs at hx with hle
    cases hx
    exact ⟨i, by omega, not_le.1 hle, rfl⟩
  · rintro ⟨i, hi, hlt, rfl⟩
    exact ⟨i + 1, by omega, if_neg (not_le.2 hlt)⟩

theorem leaving?_eq_none {c : Nat} (h : d.tableau.leaving? eps d.basis c = none) :
    ∀ i < d.tableau.numConstraints, d.tableau.entry (i + 1) c ≤ eps := by
  have hnil : d.tableau.ratios eps c = [] := by
    unfold Tableau.leaving? at h
    split at h
    · assumption
    · cases h
  intro i hi
  by_contra hlt
  have hmem := mem_ratios.2 ⟨i, hi, not_le.1 hlt, rfl⟩
  rw [hnil] at hmem
  cases hmem

/-- The answer is the last winner of the scan. -/
theorem exists_foldl_of_leaving? {c row : Nat}
    (h : d.tableau.leaving? eps d.basis c = some row) :
    ∃ first rest, d.tableau.ratios eps c = first :: rest ∧
      row = (rest.foldl (Tableau.betterRow eps d.basis) first).1 := by
  unfold Tableau.leaving? at h
  split at h
  · cases h
  · rename_i first rest hratios
    cases h
    exact ⟨first, rest, hratios, rfl⟩

theorem leaving?_eq_some {c row : Nat} (h : d.tableau.leaving? eps d.basis c = some row) :
    ∃ r < d.tableau.numConstraints, row = r + 1 ∧ eps < d.tableau.entry (r + 1) c := by
  obtain ⟨first, rest, hratios, hrow⟩ := exists_foldl_of_leaving? h
  have hmem := Tableau.foldl_betterRow_mem eps d.basis rest first
  rw [← hratios] at hmem
  obtain ⟨r, hr, hlt, hlast⟩ := mem_ratios.1 hmem
  exact ⟨r, hr, by rw [hrow, hlast], hlt⟩

theorem choose_eq_optimal (h : d.choose eps = .optimal) : d.tableau.entering? eps = none := by
  unfold choose at h
  split at h
  · assumption
  · split at h <;> cases h

theorem choose_eq_unbounded {c : Nat} (h : d.choose eps = .unbounded c) :
    d.tableau.entering? eps = some c ∧ d.tableau.leaving? eps d.basis c = none := by
  unfold choose at h
  split at h
  · cases h
  · split at h
    · cases h
      exact ⟨‹_›, ‹_›⟩
    · cases h

theorem choose_eq_exchange {row c : Nat} (h : d.choose eps = .exchange row c) :
    d.tableau.entering? eps = some c ∧ d.tableau.leaving? eps d.basis c = some row := by
  unfold choose at h
  split at h
  · cases h
  · split at h
    · cases h
    · cases h
      exact ⟨‹_›, ‹_›⟩

/-- Whether one row with its ratio comes before another in the ratio test. -/
def Precedes (eps : K) (d : Dictionary K) (x y : Nat × K) : Prop :=
  x.2 < y.2 ∨ x.2 = y.2 ∧ (0 < eps → d.basic (x.1 - 1) ≤ d.basic (y.1 - 1))

theorem precedes_refl (eps : K) (d : Dictionary K) (x : Nat × K) : d.Precedes eps x x :=
  Or.inr ⟨rfl, fun _ => le_rfl⟩

theorem precedes_trans {x y z : Nat × K} (hxy : d.Precedes eps x y) (hyz : d.Precedes eps y z) :
    d.Precedes eps x z := by
  rcases hxy with hxy | ⟨hxy, hxy'⟩
  · rcases hyz with hyz | ⟨hyz, _⟩
    · exact Or.inl (hxy.trans hyz)
    · exact Or.inl (hyz ▸ hxy)
  · rcases hyz with hyz | ⟨hyz, hyz'⟩
    · exact Or.inl (hxy ▸ hyz)
    · exact Or.inr ⟨hxy.trans hyz, fun heps => (hxy' heps).trans (hyz' heps)⟩

theorem resolves_zero (d : Dictionary K) : d.Resolves 0 where
  nonneg := le_rfl
  cost j _ h := by rwa [neg_zero]
  entry i _ j _ h := h
  ratio i _ k _ j _ _ _ h := by rwa [sub_zero]

namespace Resolves

theorem entry_nonneg (h : d.Resolves eps) {j : Nat} (hj : j < d.tableau.numVariables)
    (hle : -eps ≤ d.tableau.entry 0 j) : 0 ≤ d.tableau.entry 0 j := by
  by_contra hneg
  exact absurd (h.cost j hj (not_le.1 hneg)) (not_lt.2 hle)

theorem reducedCost_nonneg (h : d.Resolves eps) (hchoose : d.choose eps = .optimal) :
    ∀ j < d.tableau.numVariables, 0 ≤ d.tableau.entry 0 j := fun j hj =>
  h.entry_nonneg hj (Tableau.entering?_eq_none (choose_eq_optimal hchoose) j hj)

variable [IsStrictOrderedRing K]

theorem entering (h : d.Resolves eps) {c : Nat} (hc : d.tableau.entering? eps = some c) :
    c < d.tableau.numVariables ∧ d.tableau.entry 0 c < 0 ∧ ∀ j < c, 0 ≤ d.tableau.entry 0 j := by
  obtain ⟨hlt, hneg, hmin⟩ := Tableau.entering?_eq_some hc
  have heps : -eps ≤ 0 := neg_nonpos.2 h.nonneg
  exact ⟨hlt, hneg.trans_le heps, fun j hj => h.entry_nonneg (hj.trans hlt) (hmin j hj)⟩

theorem unbounded_of_choose (h : d.Resolves eps) {c : Nat}
    (hchoose : d.choose eps = .unbounded c) :
    c < d.tableau.numVariables ∧ d.tableau.entry 0 c < 0 ∧
      ∀ i < d.tableau.numConstraints, d.tableau.entry (i + 1) c ≤ 0 := by
  obtain ⟨hc, hnone⟩ := choose_eq_unbounded hchoose
  obtain ⟨hlt, hneg, _⟩ := h.entering hc
  refine ⟨hlt, hneg, ?_⟩
  intro i hi
  by_contra hpos
  exact absurd (h.entry i hi c hlt (not_le.1 hpos))
    (not_lt.2 (leaving?_eq_none hnone i hi))

theorem betterRow_precedes (h : d.Resolves eps) {c : Nat} (hc : c < d.tableau.numVariables)
    {x y : Nat × K} (hx : x ∈ d.tableau.ratios eps c) (hy : y ∈ d.tableau.ratios eps c) :
    d.Precedes eps (Tableau.betterRow eps d.basis x y) x ∧
      d.Precedes eps (Tableau.betterRow eps d.basis x y) y := by
  obtain ⟨i, hi, hix, rfl⟩ := mem_ratios.1 hx
  obtain ⟨k, hk, hky, rfl⟩ := mem_ratios.1 hy
  have hi₀ := h.nonneg.trans_lt hix
  have hk₀ := h.nonneg.trans_lt hky
  unfold Tableau.betterRow
  dsimp only
  split_ifs with hbetter
  · refine ⟨?_, precedes_refl eps d _⟩
    rcases hbetter with hsmaller | ⟨hnear, hindex⟩
    · exact Or.inl (hsmaller.trans_le (sub_le_self _ h.nonneg))
    · -- ratios this close are equal
      obtain ⟨hlow, hhigh⟩ := abs_lt.1 hnear
      rcases lt_trichotomy (d.ratio c k) (d.ratio c i) with hlt | heq | hgt
      · have hfar := h.ratio k hk i hi c hc hk₀ hi₀ hlt
        linarith
      · exact Or.inr ⟨heq, fun _ => le_of_lt hindex⟩
      · have hfar := h.ratio i hi k hk c hc hi₀ hk₀ hgt
        linarith
  · refine ⟨precedes_refl eps d _, ?_⟩
    push Not at hbetter
    obtain ⟨hnot, htie⟩ := hbetter
    rcases lt_trichotomy (d.ratio c i) (d.ratio c k) with hlt | heq | hgt
    · exact Or.inl hlt
    · refine Or.inr ⟨heq, fun heps => htie ?_⟩
      have hzero : d.ratio c k - d.ratio c i = 0 := by rw [heq, sub_self]
      rw [hzero]
      simpa using heps
    · exact absurd (h.ratio k hk i hi c hc hk₀ hi₀ hgt) (not_lt.2 hnot)

theorem isPivot_of_choose (h : d.Resolves eps) {row c : Nat}
    (hchoose : d.choose eps = .exchange row c) : ∃ r, row = r + 1 ∧ d.IsPivot eps r c := by
  obtain ⟨hc, hrow⟩ := choose_eq_exchange hchoose
  obtain ⟨hlt, hneg, hmin⟩ := h.entering hc
  obtain ⟨first, rest, hratios, rfl⟩ := exists_foldl_of_leaving? hrow
  obtain ⟨hmem, hbest⟩ := foldl_choice (Tableau.betterRow_eq_or eps d.basis)
    (precedes_refl eps d) (fun _ _ _ => precedes_trans)
    (fun x y hx hy => h.betterRow_precedes hlt hx hy) rest first
    (fun x hx => by rwa [hratios])
  rw [← hratios] at hmem
  obtain ⟨r, hr, hpos, hlast⟩ := mem_ratios.1 hmem
  rw [hlast, ← hratios] at hbest
  have hbest' : ∀ i < d.tableau.numConstraints, 0 < d.tableau.entry (i + 1) c →
      d.Precedes eps (r + 1, d.ratio c r) (i + 1, d.ratio c i) := fun i hi hi₀ =>
    hbest _ (mem_ratios.2 ⟨i, hi, h.entry i hi c hlt hi₀, rfl⟩)
  refine ⟨r, by rw [hlast], hr, hlt, hneg, hmin, h.nonneg.trans_lt hpos, ?_, ?_⟩
  · intro i hi hi₀
    rcases hbest' i hi hi₀ with hless | ⟨heq, _⟩
    · exact le_of_lt hless
    · exact le_of_eq heq
  · intro heps i hi hi₀ hratio
    rcases hbest' i hi hi₀ with hless | ⟨_, hindex⟩
    · exact absurd hless (not_lt.2 (le_of_eq hratio.symm))
    · exact hindex heps

end Resolves

theorem IsDictionaryOf.exchange [IsStrictOrderedRing K] {t : Tableau K} {r c : Nat}
    (hd : d.IsDictionaryOf t) (hp : d.IsPivot eps r c) :
    (d.exchange (r + 1) c).IsDictionaryOf t where
  canonical := hd.canonical.exchange hp.column_lt hp.row_lt hp.entry_pos.ne'
  feasible := hd.feasible.exchange hd.canonical hp.column_lt hp.row_lt hp.entry_pos hp.ratio_le
  equivalent := hd.equivalent.trans (.pivot hp.row_lt hp.column_lt hp.entry_pos.ne')

namespace IsDictionaryOf

variable [IsStrictOrderedRing K] {t : Tableau K} {r c : Nat} (hd : d.IsDictionaryOf t)
  (hp : d.IsPivot eps r c)

include hd hp

theorem ratio_nonneg : 0 ≤ d.ratio c r :=
  div_nonneg (hd.feasible r hp.row_lt) hp.entry_pos.le

theorem objectiveValue_exchange_le :
    (d.exchange (r + 1) c).tableau.objectiveValue ≤ d.tableau.objectiveValue := by
  have hstep := mul_nonpos_of_nonpos_of_nonneg hp.cost_neg.le (hd.ratio_nonneg hp)
  rw [objectiveValue_exchange hd.canonical hp.column_lt]
  linarith

end IsDictionaryOf

end Dictionary
end PenaltySimplex
