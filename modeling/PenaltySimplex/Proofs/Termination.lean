import PenaltySimplex.Proofs.Resolution

/-!
# PenaltySimplex.Proofs.Termination

Bland's rule does not cycle. A `Circuit` is a sequence of exchanges chosen by the rule that returns
to the variables of its first basis. Along a circuit the objective value cannot change, so every
ratio is zero and the basic point stays where it is (`Circuit.basicPoint_eq`).

Take the largest variable `q` that enters on the circuit, the dictionary in which it enters and one
in which it leaves. The direction of the column that enters when `q` leaves lowers the cost, so in
the dictionary where `q` enters some variable `u` of that direction has a reduced cost of the
opposite sign. This `u` enters somewhere on the circuit, hence comes before `q`, and in the row of
`u` the ratio is zero as well: the rule would have taken that row (`Circuit.false`).

As there are finitely many bases, a run with a small positive tolerance ends
(`solve_terminates`).
-/

namespace PenaltySimplex

variable {K : Type} [Field K] [LinearOrder K]

theorem exists_switch {p : Nat → Prop} {a b : Nat} (hab : a ≤ b) (ha : p a) (hb : ¬ p b) :
    ∃ k, a ≤ k ∧ k < b ∧ p k ∧ ¬ p (k + 1) := by
  induction b, hab using Nat.le_induction with
  | base => exact absurd ha hb
  | succ b hab ih =>
    by_cases hpb : p b
    · exact ⟨b, hab, Nat.lt_succ_self b, hpb, hb⟩
    · obtain ⟨k, hak, hkb, hk⟩ := ih hpb
      exact ⟨k, hak, Nat.lt_succ_of_lt hkb, hk⟩

namespace Dictionary

section Membership

variable {α : Type} [Scalar α] {d : Dictionary α} {r c j : Nat}

theorem mem_of_mem_exchange (h : j ∈ (d.exchange (r + 1) c).basis) : j ∈ d.basis ∨ j = c :=
  List.mem_or_eq_of_mem_set h

/-- Only the basic variable of the pivot row leaves. -/
theorem eq_basic_of_not_mem_exchange (hj : j ∈ d.basis)
    (h : j ∉ (d.exchange (r + 1) c).basis) : j = d.basic r := by
  obtain ⟨i, hi, rfl⟩ := List.getElem_of_mem hj
  by_cases hir : r = i
  · subst hir
    exact (List.getD_eq_getElem _ _ hi).symm
  · have hset : d.basis[i] ∈ d.basis.set r c :=
      List.mem_iff_getElem.2 ⟨i, by rwa [List.length_set], List.getElem_set_ne hir _⟩
    exact absurd hset h

theorem mem_exchange (h : r < d.basis.length) : c ∈ (d.exchange (r + 1) c).basis :=
  List.mem_set h c

end Membership

/-- Exchanges chosen by the rule that lead back to the variables of the first basis. -/
structure Circuit (eps : K) (t : Tableau K) (n : Nat) (D : Nat → Dictionary K)
    (r c : Nat → Nat) : Prop where
  isDictionaryOf : ∀ k ≤ n, (D k).IsDictionaryOf t
  isPivot : ∀ k < n, (D k).IsPivot eps (r k) (c k)
  succ : ∀ k < n, D (k + 1) = (D k).exchange (r k + 1) (c k)
  returns : ∀ j, j ∈ (D n).basis ↔ j ∈ (D 0).basis

namespace Circuit

variable [IsStrictOrderedRing K] {eps : K} {t : Tableau K} {n : Nat} {D : Nat → Dictionary K}
  {r c : Nat → Nat} (h : Circuit eps t n D r c)

include h

theorem ratio_nonneg {k : Nat} (hk : k < n) : 0 ≤ (D k).ratio (c k) (r k) :=
  (h.isDictionaryOf k hk.le).ratio_nonneg (h.isPivot k hk)

omit [IsStrictOrderedRing K] in
theorem objectiveValue_succ {k : Nat} (hk : k < n) :
    (D (k + 1)).tableau.objectiveValue =
      (D k).tableau.objectiveValue + (D k).tableau.entry 0 (c k) * (D k).ratio (c k) (r k) := by
  rw [h.succ k hk, objectiveValue_exchange (h.isDictionaryOf k hk.le).canonical
    (h.isPivot k hk).column_lt]

theorem objectiveValue_le {a b : Nat} (hab : a ≤ b) (hb : b ≤ n) :
    (D b).tableau.objectiveValue ≤ (D a).tableau.objectiveValue := by
  induction b, hab using Nat.le_induction with
  | base => exact le_rfl
  | succ b hab ih =>
    refine le_trans ?_ (ih (by omega))
    rw [h.succ b hb]
    exact (h.isDictionaryOf b (Nat.le_of_succ_le hb)).objectiveValue_exchange_le (h.isPivot b hb)

/-- It ends where it began, so no exchange makes progress. -/
theorem ratio_eq_zero {k : Nat} (hk : k < n) : (D k).ratio (c k) (r k) = 0 := by
  have h₀ := h.isDictionaryOf 0 (Nat.zero_le n)
  have hn := h.isDictionaryOf n le_rfl
  have hends := h₀.canonical.objectiveValue_eq hn.canonical
    (fun j hj => (h.returns j).1 hj) (h₀.equivalent_of hn)
  have hbefore := h.objectiveValue_le (Nat.zero_le k) hk.le
  have hafter := h.objectiveValue_le (Nat.succ_le_of_lt hk) le_rfl
  have hstep := h.objectiveValue_succ hk
  by_contra hne
  have hpos := lt_of_le_of_ne (h.ratio_nonneg hk) (Ne.symm hne)
  have hprod := mul_neg_of_neg_of_pos (h.isPivot k hk).cost_neg hpos
  linarith

theorem basicPoint_succ {k : Nat} (hk : k < n) {j : Nat} (hj : j < t.numVariables) :
    (D (k + 1)).basicPoint j = (D k).basicPoint j := by
  have hd := h.isDictionaryOf k hk.le
  have he := h.isDictionaryOf (k + 1) hk
  have hp := h.isPivot k hk
  refine hd.canonical.eq_of_agree
    (((hd.equivalent_of he).solves_iff _).1 he.canonical.solves_basicPoint)
    hd.canonical.solves_basicPoint ?_ j (hd.equivalent.numVariables ▸ hj)
  intro j _ hjd
  rw [hd.canonical.basicPoint_eq_zero hjd]
  by_cases hje : j ∈ (D (k + 1)).basis
  · -- the entering variable enters at level zero
    rw [h.succ k hk] at hje ⊢
    obtain rfl := (mem_of_mem_exchange hje).resolve_left hjd
    have hbasic := basic_exchange (hd.canonical.length_basis ▸ hp.row_lt) (c k) (r k)
    rw [if_pos rfl] at hbasic
    have hpoint := (h.succ k hk ▸ he.canonical).basicPoint_basic hp.row_lt
    rw [hbasic, rhs_exchange hd.canonical hp.column_lt hp.row_lt, if_pos rfl,
      h.ratio_eq_zero hk] at hpoint
    exact hpoint
  · exact he.canonical.basicPoint_eq_zero hje

theorem basicPoint_eq {a b : Nat} (ha : a ≤ n) (hb : b ≤ n) {j : Nat} (hj : j < t.numVariables) :
    (D a).basicPoint j = (D b).basicPoint j := by
  have hstart : ∀ k ≤ n, (D k).basicPoint j = (D 0).basicPoint j := by
    intro k
    induction k with
    | zero => exact fun _ => rfl
    | succ k ih => exact fun hk => (h.basicPoint_succ hk hj).trans (ih (by omega))
  exact (hstart a ha).trans (hstart b hb).symm

omit [IsStrictOrderedRing K] in
theorem exists_enters {a b u : Nat} (ha : a ≤ n) (hb : b ≤ n) (hua : u ∈ (D a).basis)
    (hub : u ∉ (D b).basis) : ∃ k < n, c k = u := by
  have henters : ∀ k < n, u ∉ (D k).basis → ¬ u ∉ (D (k + 1)).basis → ∃ k < n, c k = u := by
    intro k hk hout hin
    rw [h.succ k hk, not_not] at hin
    exact ⟨k, hk, ((mem_of_mem_exchange hin).resolve_left hout).symm⟩
  by_cases hn : u ∈ (D n).basis
  · obtain ⟨k, _, hkn, hk⟩ := exists_switch (p := fun k => u ∉ (D k).basis) hb hub (not_not.2 hn)
    exact henters k hkn hk.1 hk.2
  · have h₀ : u ∉ (D 0).basis := fun hu => hn ((h.returns u).2 hu)
    obtain ⟨k, _, hka, hk⟩ := exists_switch (p := fun k => u ∉ (D k).basis) (Nat.zero_le a) h₀
      (not_not.2 hua)
    exact henters k (by omega) hk.1 hk.2

omit [IsStrictOrderedRing K] in
theorem exists_leaves {a b u : Nat} (ha : a ≤ n) (hb : b ≤ n) (hua : u ∈ (D a).basis)
    (hub : u ∉ (D b).basis) : ∃ k < n, (D k).basic (r k) = u := by
  have hleaves : ∀ k < n, u ∈ (D k).basis → u ∉ (D (k + 1)).basis →
      ∃ k < n, (D k).basic (r k) = u := by
    intro k hk hin hout
    rw [h.succ k hk] at hout
    exact ⟨k, hk, (eq_basic_of_not_mem_exchange hin hout).symm⟩
  by_cases hn : u ∈ (D n).basis
  · obtain ⟨k, _, hkb, hk⟩ := exists_switch (p := fun k => u ∈ (D k).basis) (Nat.zero_le b)
      ((h.returns u).1 hn) hub
    exact hleaves k (by omega) hk.1 hk.2
  · obtain ⟨k, _, hkn, hk⟩ := exists_switch (p := fun k => u ∈ (D k).basis) ha hua hn
    exact hleaves k hkn hk.1 hk.2

/-- In the dictionary of one exchange, some variable of the direction of another has a reduced
cost of the opposite sign. -/
theorem exists_opposite {a b : Nat} (ha : a < n) (hb : b < n) :
    ∃ u < t.numVariables, (D a).tableau.entry 0 u * (D b).direction (c b) u < 0 := by
  have hda := h.isDictionaryOf a ha.le
  have hdb := h.isDictionaryOf b hb.le
  have hp := h.isPivot b hb
  have hother : (D b).IsDictionaryOf (D a).tableau :=
    ⟨hdb.canonical, hdb.feasible, hda.equivalent_of hdb⟩
  have hcost := hother.cost_direction (c := c b)
    (by rw [hda.equivalent.numVariables, ← hdb.equivalent.numVariables]; exact hp.column_lt)
  by_contra hall
  push Not at hall
  refine absurd hp.cost_neg (not_lt.2 ?_)
  rw [← hcost]
  refine Finset.sum_nonneg fun u hu => hall u ?_
  exact hda.equivalent.numVariables ▸ Finset.mem_range.1 hu

section EntersAndLeaves

variable {a b : Nat} (ha : a < n) (hb : b < n) (hq : (D b).basic (r b) = c a)

include ha hb hq

omit [IsStrictOrderedRing K] in
/-- The only nonbasic variable of the direction enters in `D b`, and it comes before `c a`. -/
theorem mem_basis_of_opposite (hmax : ∀ k < n, c k ≤ c a) {u : Nat}
    (hopposite : (D a).tableau.entry 0 u * (D b).direction (c b) u < 0) : u ∈ (D b).basis := by
  have hdb := h.isDictionaryOf b hb.le
  have hpb := h.isPivot b hb
  by_contra hub
  rw [direction, hdb.canonical.spread_eq_zero hub, sub_zero] at hopposite
  split_ifs at hopposite with huc
  · rw [mul_one, huc] at hopposite
    have hne : c b ≠ c a := by
      intro heq
      have hbasic := hdb.canonical.basic_mem hpb.row_lt
      rw [hq, ← heq] at hbasic
      exact hdb.canonical.not_mem_basis hpb.cost_neg.ne hbasic
    have hlt : c b < c a := lt_of_le_of_ne (hmax b hb) hne
    exact absurd hopposite (not_lt.2 ((h.isPivot a ha).cost_nonneg _ hlt))
  · rw [mul_zero] at hopposite
    exact lt_irrefl _ hopposite

/-- A basic variable of `D b` before `c a` has no opposite sign: its row would tie with that of
`c a` and be taken instead. -/
theorem le_basic_of_opposite (heps : 0 < eps) {i : Nat} (hi : i < (D b).tableau.numConstraints)
    (hu : (D b).basic i < t.numVariables) (hua : (D b).basic i ∉ (D a).basis)
    (hopposite : 0 < (D a).tableau.entry 0 ((D b).basic i) * (D b).tableau.entry (i + 1) (c b)) :
    c a ≤ (D b).basic i := by
  have hdb := h.isDictionaryOf b hb.le
  by_contra hlt
  have hcost := (h.isPivot a ha).cost_nonneg _ (not_le.1 hlt)
  have hpos : 0 < (D b).tableau.entry (i + 1) (c b) := pos_of_mul_pos_right hopposite hcost
  have hzero : (D b).tableau.rhs (i + 1) = 0 := by
    rw [← hdb.canonical.basicPoint_basic hi, h.basicPoint_eq hb.le ha.le hu]
    exact (h.isDictionaryOf a ha.le).canonical.basicPoint_eq_zero hua
  have hratio : (D b).ratio (c b) i = 0 := by rw [ratio, hzero, zero_div]
  have hle := (h.isPivot b hb).basic_le heps i hi hpos ((h.ratio_eq_zero hb).trans hratio.symm)
  omega

end EntersAndLeaves

/-- The rule never returns to a basis. -/
theorem false (heps : 0 < eps) (hn : 0 < n) : False := by
  -- `q` is the largest variable that enters; it enters in `D a` and leaves in `D b`
  obtain ⟨a, ha, hmax⟩ := Finset.exists_max_image (Finset.range n) c ⟨0, Finset.mem_range.2 hn⟩
  rw [Finset.mem_range] at ha
  have hmax' : ∀ k < n, c k ≤ c a := fun k hk => hmax k (Finset.mem_range.2 hk)
  have hda := h.isDictionaryOf a ha.le
  have hpa := h.isPivot a ha
  have hqa : c a ∉ (D a).basis := hda.canonical.not_mem_basis hpa.cost_neg.ne
  have hqa' : c a ∈ (D (a + 1)).basis := by
    rw [h.succ a ha]
    exact mem_exchange (hda.canonical.length_basis ▸ hpa.row_lt)
  obtain ⟨b, hb, hqb⟩ := h.exists_leaves ha ha.le hqa' hqa
  have hdb := h.isDictionaryOf b hb.le
  have hpb := h.isPivot b hb
  obtain ⟨u, hu, hopposite⟩ := h.exists_opposite ha hb
  have hub := h.mem_basis_of_opposite ha hb hqb hmax' hopposite
  obtain ⟨i, hi, rfl⟩ := hdb.canonical.mem_basis.1 hub
  rw [hdb.canonical.direction_basic hi (hdb.canonical.not_mem_basis hpb.cost_neg.ne), mul_neg,
    neg_lt_zero] at hopposite
  have hua : (D b).basic i ∉ (D a).basis :=
    hda.canonical.not_mem_basis (left_ne_zero_of_mul hopposite.ne')
  -- as a basic variable of `D b` that is not basic in `D a` it enters, so it is `q` itself
  obtain ⟨k, hk, hku⟩ := h.exists_enters hb.le ha.le hub hua
  have heq : (D b).basic i = c a :=
    le_antisymm (hku ▸ hmax' k hk)
      (h.le_basic_of_opposite ha hb hqb heps hi hu hua hopposite)
  have hir := hdb.canonical.basic_inj hi hpb.row_lt (heq.trans hqb.symm)
  rw [heq, hir] at hopposite
  exact absurd hopposite (not_lt.2 (mul_nonpos_of_nonpos_of_nonneg hpa.cost_neg.le
    hpb.entry_pos.le))

end Circuit
end Dictionary

namespace Tableau

variable [IsStrictOrderedRing K]

section Resolved

variable {eps : K} {t : Tableau K} (hbasis : t.HasUnitBasis)
  (hrhs : ∀ i < t.numConstraints, 0 ≤ t.rhs (i + 1)) (hres : t.ResolvedBy eps) (heps : 0 < eps)

include hbasis hrhs hres heps

theorem basis_not_perm {a b : Nat} (hab : a < b)
    (hmoves : ∀ k < b, ((Dictionary.next eps)^[k] (Dictionary.start t)).Moves eps) :
    ¬ ((Dictionary.next eps)^[a] (Dictionary.start t)).basis.Perm
      ((Dictionary.next eps)^[b] (Dictionary.start t)).basis := by
  intro hperm
  have hstep : ∀ k < b - a, ∃ r c,
      ((Dictionary.next eps)^[a + k] (Dictionary.start t)).IsPivot eps r c ∧
      (Dictionary.next eps)^[a + (k + 1)] (Dictionary.start t) =
        ((Dictionary.next eps)^[a + k] (Dictionary.start t)).exchange (r + 1) c := by
    intro k hk
    obtain ⟨row, c, hchoose⟩ := hmoves (a + k) (by omega)
    obtain ⟨r, rfl, hpivot⟩ :=
      (hres _ (isDictionaryOf_iterate hres hbasis hrhs (a + k))).isPivot_of_choose hchoose
    refine ⟨r, c, hpivot, ?_⟩
    rw [← Nat.add_assoc, Function.iterate_succ_apply', Dictionary.next_of_choose hchoose]
  choose! r c hrc using hstep
  have hcircuit : Dictionary.Circuit eps t (b - a)
      (fun k => (Dictionary.next eps)^[a + k] (Dictionary.start t)) r c :=
    { isDictionaryOf := fun k _ => isDictionaryOf_iterate hres hbasis hrhs (a + k)
      isPivot := fun k hk => (hrc k hk).1
      succ := fun k hk => (hrc k hk).2
      returns := fun j => by
        rw [Nat.add_sub_cancel' hab.le, Nat.add_zero]
        exact hperm.mem_iff.symm }
  exact hcircuit.false heps (by omega)

/-- A run cannot make as many exchanges as there are bases. -/
theorem stop_ne_iterationLimit {cap : Nat}
    (hcap : (finite_bases t.numConstraints t.numVariables).toFinset.card ≤ cap) :
    (t.solveFrom eps cap).stop ≠ .iterationLimit := by
  intro hstop
  have hends := endsAfter_solveFrom eps cap t
  have hmoves : ∀ k < cap, ((Dictionary.next eps)^[k] (Dictionary.start t)).Moves eps := by
    have h := hends.moves
    rwa [hends.limit hstop] at h
  have hcard := Finset.card_le_card_of_injOn (s := Finset.range (cap + 1))
    (fun k => ((Dictionary.next eps)^[k] (Dictionary.start t)).basis)
    (fun k _ => (Set.Finite.mem_toFinset (finite_bases t.numConstraints t.numVariables)).2
      (isDictionaryOf_iterate hres hbasis hrhs k).basis_mem) ?_
  · rw [Finset.card_range] at hcard
    omega
  · intro a ha b hb heq
    have hperm : ((Dictionary.next eps)^[a] (Dictionary.start t)).basis.Perm
        ((Dictionary.next eps)^[b] (Dictionary.start t)).basis := by
      rw [show ((Dictionary.next eps)^[a] (Dictionary.start t)).basis = _ from heq]
    rw [Finset.mem_coe, Finset.mem_range] at ha hb
    rcases Nat.lt_trichotomy a b with hlt | heq' | hgt
    · exact absurd hperm (basis_not_perm hbasis hrhs hres heps hlt
        fun k hk => hmoves k (by omega))
    · exact heq'
    · exact absurd hperm.symm (basis_not_perm hbasis hrhs hres heps hgt
        fun k hk => hmoves k (by omega))

end Resolved

/-- Every tableau with a unit basis and nonnegative right-hand sides has a dictionary that is
optimal or has an unbounded column: a run with a small tolerance ends in one. -/
theorem exists_final {t : Tableau K} (hbasis : t.HasUnitBasis)
    (hrhs : ∀ i < t.numConstraints, 0 ≤ t.rhs (i + 1)) :
    ∃ d : Dictionary K, d.IsDictionaryOf t ∧
      ((∀ j < t.numVariables, 0 ≤ d.tableau.entry 0 j) ∨
        ∃ c < t.numVariables, d.tableau.entry 0 c < 0 ∧
          ∀ i < t.numConstraints, d.tableau.entry (i + 1) c ≤ 0) := by
  obtain ⟨eps, heps, hall⟩ := t.exists_resolvedBy
  have hres := hall eps heps le_rfl
  obtain ⟨cap, hcap⟩ : ∃ cap,
      (finite_bases t.numConstraints t.numVariables).toFinset.card ≤ cap := ⟨_, le_rfl⟩
  refine ⟨_, isDictionaryOf_final hres hbasis hrhs cap, ?_⟩
  cases hstop : (t.solveFrom eps cap).stop with
  | optimal => exact Or.inl (reducedCost_nonneg_of_stop hres hbasis hrhs hstop)
  | unbounded c => exact Or.inr ⟨c, column_nonpos_of_stop hres hbasis hrhs hstop⟩
  | iterationLimit =>
    exact absurd hstop (stop_ne_iterationLimit hbasis hrhs hres heps hcap)

/-- From a unit basis with nonnegative right-hand sides every run with a small positive tolerance
ends optimal or unbounded, if the cap is not too low, and no two dictionaries on the way have the
same basic variables. -/
theorem solve_terminates (t : Tableau K) (hbasis : t.HasUnitBasis)
    (hrhs : ∀ i < t.numConstraints, 0 ≤ t.rhs (i + 1)) :
    ∃ bound : K, 0 < bound ∧ ∀ eps, 0 < eps → eps ≤ bound →
      (∃ N, ∀ cap, N ≤ cap → ∃ o, t.solve eps cap = .ok o ∧
        (o.status = .optimal ∨ o.status = .unbounded)) ∧
      ∀ a b oa ob, a < b → t.solve eps a = .ok oa → t.solve eps b = .ok ob →
        oa.iterations = a → ob.iterations = b → ¬ oa.basis.Perm ob.basis := by
  obtain ⟨bound, hbound, hres⟩ := t.exists_resolvedBy
  refine ⟨bound, hbound, fun eps heps hle => ⟨?_, ?_⟩⟩
  · refine ⟨(finite_bases t.numConstraints t.numVariables).toFinset.card, ?_⟩
    intro cap hcap
    refine ⟨_, solve_eq_ok hbasis cap, ?_⟩
    have hstop := stop_ne_iterationLimit hbasis hrhs (hres eps heps hle) heps hcap
    unfold Outcome.status
    cases h : (t.solveFrom eps cap).stop with
    | optimal => exact Or.inl rfl
    | unbounded column => exact Or.inr rfl
    | iterationLimit => exact absurd h hstop
  · intro a b oa ob hab hoa hob ha hb
    rw [solve_eq_ok hbasis] at hoa hob
    cases hoa
    cases hob
    have hends₁ := endsAfter_solveFrom eps a t
    have hends₂ := endsAfter_solveFrom eps b t
    rw [ha] at hends₁
    rw [hb] at hends₂
    unfold Outcome.basis
    rw [hends₁.final_eq, hends₂.final_eq]
    exact basis_not_perm hbasis hrhs (hres eps heps hle) heps hab hends₂.moves

/-- A degenerate tableau on which the largest-coefficient rule cycles. -/
def degenerate : Tableau ℚ :=
  ofFn 4 8 fun i j => ([
    [-3 / 4, 20, -1 / 2, 6, 0, 0, 0, 3],
    [1 / 4, -8, -1, 9, 1, 0, 0, 0],
    [1 / 2, -12, -1 / 2, 3, 0, 1, 0, 0],
    [0, 0, 1, 0, 0, 0, 1, 1]].getD i []).getD j 0

/-- With the tolerance that the program starts with the run takes six exchanges. -/
theorem solve_terminates_degenerate :
    degenerate.HasUnitBasis ∧ (∀ i < degenerate.numConstraints, 0 ≤ degenerate.rhs (i + 1)) ∧
    (degenerate.solve (1 / 10 ^ 10) 50).toOption.map
        (fun o => (o.status, o.iterations, o.basis, o.objectiveValue)) =
      some (.optimal, 6, [2, 4, 0], -17 / 4) ∧
    ∃ bound : ℚ, 0 < bound ∧ ∀ eps, 0 < eps → eps ≤ bound →
      (∃ N, ∀ cap, N ≤ cap → ∃ o, degenerate.solve eps cap = .ok o ∧
        (o.status = .optimal ∨ o.status = .unbounded)) ∧
      ∀ a b oa ob, a < b → degenerate.solve eps a = .ok oa → degenerate.solve eps b = .ok ob →
        oa.iterations = a → ob.iterations = b → ¬ oa.basis.Perm ob.basis := by
  have hbasis : degenerate.HasUnitBasis :=
    ⟨by decide, by decide, by decide +kernel⟩
  have hrhs : ∀ i < degenerate.numConstraints, 0 ≤ degenerate.rhs (i + 1) := by decide +kernel
  exact ⟨hbasis, hrhs, by decide +kernel, solve_terminates degenerate hbasis hrhs⟩

end Tableau
end PenaltySimplex
