import Mathlib.Data.Set.Finite.List
import Mathlib.Order.Filter.AtTopBot.CountablyGenerated
import Mathlib.Order.Filter.AtTopBot.Finite
import PenaltySimplex.Proofs.Certificate

/-!
# PenaltySimplex.Proofs.Resolution

A tableau has finitely many bases (`finite_bases`), and a basis determines its dictionary. So what
holds of each dictionary for all small tolerances holds of all of them at once: every tolerance
below some positive bound resolves the tableau (`exists_resolvedBy`).

"For all small tolerances" is the filter `atBot` on the positive elements of the field.
-/

namespace PenaltySimplex

open Filter

/-- The lists that can be the basis of a tableau with `m` constraint rows and `n` variables. -/
def bases (m n : Nat) : Set (List Nat) :=
  {l | l.length = m ∧ ∀ j ∈ l, j < n}

theorem finite_bases (m n : Nat) : (bases m n).Finite := by
  refine ((List.finite_length_eq (Fin n) m).image (List.map Fin.val)).subset ?_
  rintro l ⟨hlen, hlt⟩
  refine ⟨l.attach.map fun x => ⟨x.val, hlt x.val x.property⟩, ?_, ?_⟩
  · show (l.attach.map _).length = m
    rw [List.length_map, List.length_attach, hlen]
  · rw [List.map_map]
    exact List.attach_map_subtype_val l

variable {K : Type} [Field K] [LinearOrder K]

namespace Dictionary

variable {t : Tableau K} {d e : Dictionary K} {eps : K}

theorem IsDictionaryOf.basis_mem (h : d.IsDictionaryOf t) :
    d.basis ∈ bases t.numConstraints t.numVariables := by
  refine ⟨h.canonical.length_basis.trans h.equivalent.numConstraints, ?_⟩
  intro j hj
  obtain ⟨i, hi, rfl⟩ := h.canonical.mem_basis.1 hj
  exact h.equivalent.numVariables ▸ h.canonical.basic_lt i hi

theorem IsDictionaryOf.equivalent_of (h : d.IsDictionaryOf t) (he : e.IsDictionaryOf t) :
    d.tableau.Equivalent e.tableau :=
  h.equivalent.symm.trans he.equivalent

theorem Resolves.of_basis_eq (h : d.IsDictionaryOf t) (he : e.IsDictionaryOf t)
    (hbasis : e.basis = d.basis) (hres : d.Resolves eps) : e.Resolves eps := by
  have heq := h.equivalent_of he
  have hentry : ∀ i < d.tableau.numConstraints, ∀ j < d.tableau.numVariables,
      e.tableau.entry (i + 1) j = d.tableau.entry (i + 1) j := fun i hi j hj =>
    (h.canonical.entry_eq he.canonical hbasis heq.toSameSolutions hi hj).symm
  have hratio : ∀ i < d.tableau.numConstraints, ∀ j < d.tableau.numVariables,
      e.ratio j i = d.ratio j i := fun i hi j hj => by
    rw [Dictionary.ratio, hentry i hi j hj,
      ← h.canonical.rhs_eq he.canonical hbasis heq.toSameSolutions hi, Dictionary.ratio]
  refine ⟨hres.nonneg, ?_, ?_, ?_⟩ <;> rw [heq.numVariables]
  · intro j hj
    rw [← h.canonical.reducedCost_eq he.canonical (fun _ hj => hbasis ▸ hj) heq hj]
    exact hres.cost j hj
  · rw [heq.numConstraints]
    intro i hi j hj
    rw [hentry i hi j hj]
    exact hres.entry i hi j hj
  · rw [heq.numConstraints]
    intro i hi k hk j hj
    rw [hentry i hi j hj, hentry k hk j hj, hratio i hi j hj, hratio k hk j hj]
    exact hres.ratio i hi k hk j hj

variable [IsStrictOrderedRing K]

theorem eventually_lt {x : K} (hx : 0 < x) : ∀ᶠ e : Set.Ioi (0 : K) in atBot, (e : K) < x :=
  eventually_lt_atBot (⟨x, hx⟩ : Set.Ioi (0 : K))

/-- Every small tolerance resolves a given dictionary: finitely many numbers are compared. -/
theorem eventually_resolves (d : Dictionary K) :
    ∀ᶠ e : Set.Ioi (0 : K) in atBot, d.Resolves (e : K) := by
  have hcost : ∀ᶠ e : Set.Ioi (0 : K) in atBot, ∀ j ∈ Finset.range d.tableau.numVariables,
      d.tableau.entry 0 j < 0 → d.tableau.entry 0 j < -(e : K) := by
    refine (eventually_all_finset _).2 fun j _ => eventually_imp_distrib_left.2 fun hneg => ?_
    filter_upwards [eventually_lt (neg_pos.2 hneg)] with e he
    exact lt_neg_of_lt_neg he
  have hentry : ∀ᶠ e : Set.Ioi (0 : K) in atBot, ∀ i ∈ Finset.range d.tableau.numConstraints,
      ∀ j ∈ Finset.range d.tableau.numVariables,
      0 < d.tableau.entry (i + 1) j → (e : K) < d.tableau.entry (i + 1) j := by
    refine (eventually_all_finset _).2 fun i _ => (eventually_all_finset _).2 fun j _ => ?_
    exact eventually_imp_distrib_left.2 fun hpos => eventually_lt hpos
  have hratio : ∀ᶠ e : Set.Ioi (0 : K) in atBot, ∀ i ∈ Finset.range d.tableau.numConstraints,
      ∀ k ∈ Finset.range d.tableau.numConstraints, ∀ j ∈ Finset.range d.tableau.numVariables,
      d.ratio j i < d.ratio j k → d.ratio j i < d.ratio j k - (e : K) := by
    refine (eventually_all_finset _).2 fun i _ => (eventually_all_finset _).2 fun k _ =>
      (eventually_all_finset _).2 fun j _ => eventually_imp_distrib_left.2 fun hlt => ?_
    filter_upwards [eventually_lt (sub_pos.2 hlt)] with e he
    exact lt_sub_comm.1 he
  filter_upwards [hcost, hentry, hratio] with e hcost hentry hratio
  simp only [Finset.mem_range] at hcost hentry hratio
  exact ⟨e.property.le, hcost, hentry, fun i hi k hk j hj _ _ => hratio i hi k hk j hj⟩

end Dictionary

/-- What holds eventually of the dictionaries with a given basis holds eventually of all of them:
there are finitely many bases. -/
theorem eventually_forall_dictionary {ι : Type} {l : Filter ι} {t : ι → Tableau K} {m n : Nat}
    (hm : ∀ i, (t i).numConstraints = m) (hn : ∀ i, (t i).numVariables = n)
    {P : ι → Dictionary K → Prop}
    (h : ∀ k e, Dictionary.IsDictionaryOf (t k) e →
      ∀ᶠ i in l, ∀ d, d.IsDictionaryOf (t i) → d.basis = e.basis → P i d) :
    ∀ᶠ i in l, ∀ d, d.IsDictionaryOf (t i) → P i d := by
  have hall : ∀ᶠ i in l, ∀ b ∈ (finite_bases m n).toFinset,
      ∀ d, d.IsDictionaryOf (t i) → d.basis = b → P i d := by
    refine (eventually_all_finset _).2 ?_
    intro b _
    by_cases hex : ∃ k e, Dictionary.IsDictionaryOf (t k) e ∧ e.basis = b
    · obtain ⟨k, e, he, rfl⟩ := hex
      exact h k e he
    · exact Eventually.of_forall fun i d hd hbasis => absurd ⟨i, d, hd, hbasis⟩ hex
  filter_upwards [hall] with i hi d hd
  have hmem := hd.basis_mem
  rw [hm, hn] at hmem
  exact hi _ ((Set.Finite.mem_toFinset _).2 hmem) d hd rfl

theorem Tableau.exists_resolvedBy [IsStrictOrderedRing K] (t : Tableau K) :
    ∃ bound : K, 0 < bound ∧ ∀ eps, 0 < eps → eps ≤ bound → t.ResolvedBy eps := by
  have hall : ∀ᶠ e : Set.Ioi (0 : K) in atBot,
      ∀ d : Dictionary K, d.IsDictionaryOf t → d.Resolves (e : K) := by
    refine eventually_forall_dictionary (t := fun _ => t) (fun _ => rfl) (fun _ => rfl) ?_
    intro _ e he
    filter_upwards [e.eventually_resolves] with eps heps d hd hbasis
    exact heps.of_basis_eq he hd hbasis
  obtain ⟨bound, hbound⟩ := eventually_atBot.1 hall
  exact ⟨bound, bound.property, fun eps heps hle d hd => hbound ⟨eps, heps⟩ hle d hd⟩

end PenaltySimplex
