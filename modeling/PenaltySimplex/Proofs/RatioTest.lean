import Mathlib.Data.Set.Finite.Lattice
import Mathlib.Logic.Equiv.Basic
import Mathlib.Order.Bounds.Basic
import PenaltySimplex.Proofs.Choice

/-!
# PenaltySimplex.Proofs.RatioTest

The ratio test against its specification: of the rows whose ratio is within the tolerance of the
smallest one (`IsTied`), the row whose basic variable has the smallest index (`IsBlandRow`).

The scan keeps one row and compares the next ratio with the ratio of that row, not with the
smallest one. So its answer depends on the order of the rows unless comparing any two of them says
on which side of the tie they are (`SeparatesTies`). `ratioTest_spec` says how far the answer can
be from the smallest ratio, and that separated ties are exactly what makes every order of the rows
and every basis agree with the specification. At tolerance zero equal ratios are not separated.
-/

namespace PenaltySimplex

variable {K : Type} [Field K] [LinearOrder K]

namespace Dictionary

/-- Constraint row `i`, counted from zero, has an entry above the tolerance in column `c`. -/
def Bounds (eps : K) (d : Dictionary K) (c i : Nat) : Prop :=
  i < d.tableau.numConstraints ∧ eps < d.tableau.entry (i + 1) c

def boundingRatios (eps : K) (d : Dictionary K) (c : Nat) : Set K :=
  {x | ∃ i, d.Bounds eps c i ∧ d.ratio c i = x}

/-- The ratio of row `i` is within the tolerance of the smallest ratio. -/
def IsTied (eps : K) (d : Dictionary K) (c i : Nat) : Prop :=
  d.Bounds eps c i ∧ ∃ least, IsLeast (d.boundingRatios eps c) least ∧ |d.ratio c i - least| ≤ eps

/-- Of the tied rows, the one whose basic variable has the smallest index. -/
structure IsBlandRow (eps : K) (d : Dictionary K) (c r : Nat) : Prop where
  tied : d.IsTied eps c r
  basic_le : ∀ i, d.IsTied eps c i → d.basic r ≤ d.basic i

/-- Tied rows are less than the tolerance apart, and every other row is farther than that above
each of them. -/
structure SeparatesTies (eps : K) (d : Dictionary K) (c : Nat) : Prop where
  close : ∀ i k, i ≠ k → d.IsTied eps c i → d.IsTied eps c k →
    |d.ratio c i - d.ratio c k| < eps
  apart : ∀ i k, d.IsTied eps c i → d.Bounds eps c k → ¬ d.IsTied eps c k →
    d.ratio c i + eps < d.ratio c k

variable {eps : K} {d : Dictionary K} {c i k row : Nat}

theorem exists_isLeast (h : d.Bounds eps c i) :
    ∃ least, IsLeast (d.boundingRatios eps c) least := by
  have hfinite : {k | d.Bounds eps c k}.Finite :=
    (Set.finite_lt_nat d.tableau.numConstraints).subset fun _ hk => hk.1
  obtain ⟨k, hk, hle⟩ := Set.exists_min_image _ (d.ratio c) hfinite ⟨i, h⟩
  refine ⟨d.ratio c k, ⟨k, hk, rfl⟩, ?_⟩
  rintro _ ⟨j, hj, rfl⟩
  exact hle j hj

theorem leaving?_eq_none_iff : d.tableau.leaving? eps d.basis c = none ↔
    ∀ i < d.tableau.numConstraints, d.tableau.entry (i + 1) c ≤ eps := by
  refine ⟨leaving?_eq_none, fun h => ?_⟩
  cases hrow : d.tableau.leaving? eps d.basis c with
  | none => rfl
  | some row =>
    obtain ⟨r, hr, _, hlt⟩ := leaving?_eq_some hrow
    exact absurd (h r hr) (not_le.2 hlt)

theorem bounds_of_mem_ratios {x : Nat × K} (h : x ∈ d.tableau.ratios eps c) :
    ∃ i, d.Bounds eps c i ∧ x = (i + 1, d.ratio c i) := by
  obtain ⟨i, hi, hlt, hx⟩ := mem_ratios.1 h
  exact ⟨i, ⟨hi, hlt⟩, hx⟩

theorem mem_ratios_of_bounds (h : d.Bounds eps c i) :
    (i + 1, d.ratio c i) ∈ d.tableau.ratios eps c :=
  mem_ratios.2 ⟨i, h.1, h.2, rfl⟩

theorem leaving?_of_ratios {first : Nat × K} {rest : List (Nat × K)}
    (h : d.tableau.ratios eps c = first :: rest) : d.tableau.leaving? eps d.basis c =
      some (rest.foldl (Tableau.betterRow eps d.basis) first).1 := by
  rw [Tableau.leaving?, h]

variable [IsStrictOrderedRing K]

theorem isTied_iff : d.IsTied eps c i ↔
    d.Bounds eps c i ∧ ∀ k, d.Bounds eps c k → d.ratio c i ≤ d.ratio c k + eps := by
  refine and_congr_right fun hi => ?_
  constructor
  · rintro ⟨least, hleast, hnear⟩ k hk
    have hle := hleast.2 ⟨k, hk, rfl⟩
    have hhigh := (abs_le.1 hnear).2
    linarith
  · intro h
    obtain ⟨least, hleast⟩ := exists_isLeast hi
    obtain ⟨k, hk, hk'⟩ := hleast.1
    have hle := hleast.2 ⟨i, hi, rfl⟩
    have hhigh := h k hk
    refine ⟨least, hleast, ?_⟩
    rw [abs_of_nonneg (sub_nonneg.2 hle)]
    linarith

instance (eps : K) (d : Dictionary K) (c i : Nat) : Decidable (d.Bounds eps c i) :=
  inferInstanceAs (Decidable (_ ∧ _))

instance (eps : K) (d : Dictionary K) (c i : Nat) : Decidable (d.IsTied eps c i) :=
  decidable_of_iff
    (d.Bounds eps c i ∧ ∀ k < d.tableau.numConstraints, d.Bounds eps c k →
      d.ratio c i ≤ d.ratio c k + eps)
    (isTied_iff.trans (and_congr_right fun _ => ⟨fun h k _ => h k, fun h k hk => h k hk.1 hk⟩)).symm

instance (eps : K) (d : Dictionary K) (c r : Nat) : Decidable (d.IsBlandRow eps c r) :=
  decidable_of_iff
    (d.IsTied eps c r ∧ ∀ i < d.tableau.numConstraints, d.IsTied eps c i → d.basic r ≤ d.basic i)
    ⟨fun h => ⟨h.1, fun i hi => h.2 i hi.1.1 hi⟩, fun h => ⟨h.tied, fun i _ => h.basic_le i⟩⟩

/-! ## How far the scan can drift -/

theorem betterRow_le (heps : 0 ≤ eps) (basis : List Nat) (x y : Nat × K) :
    (Tableau.betterRow eps basis x y).2 ≤ x.2 + eps ∧
      (Tableau.betterRow eps basis x y).2 ≤ y.2 + eps := by
  unfold Tableau.betterRow
  dsimp only
  split_ifs with hbetter
  · refine ⟨?_, by linarith⟩
    rcases hbetter with hsmaller | ⟨hnear, _⟩
    · linarith
    · have hhigh := (abs_lt.1 hnear).2
      linarith
  · push Not at hbetter
    exact ⟨by linarith, by linarith [hbetter.1]⟩

/-- Each comparison can raise the ratio by the tolerance. -/
theorem foldl_betterRow_le (heps : 0 ≤ eps) (basis : List Nat) (rest : List (Nat × K))
    (first : Nat × K) : ∀ x ∈ first :: rest,
      (rest.foldl (Tableau.betterRow eps basis) first).2 ≤ x.2 + rest.length * eps := by
  induction rest generalizing first with
  | nil =>
    intro x hx
    rw [List.mem_singleton.1 hx]
    simp
  | cons y rest ih =>
    obtain ⟨hfirst, hy⟩ := betterRow_le heps basis first y
    have hwinner := ih (Tableau.betterRow eps basis first y) _ List.mem_cons_self
    intro x hx
    rw [List.foldl_cons, List.length_cons]
    push_cast
    rcases List.mem_cons.1 hx with rfl | hx
    · linarith
    · rcases List.mem_cons.1 hx with rfl | hx
      · linarith
      · have hrest := ih (Tableau.betterRow eps basis first y) x (List.mem_cons_of_mem _ hx)
        linarith

omit [IsStrictOrderedRing K] in
theorem length_ratios_le (eps : K) (t : Tableau K) (c : Nat) :
    (t.ratios eps c).length ≤ t.numConstraints :=
  (List.length_filterMap_le _ _).trans_eq List.length_range'

theorem ratio_leaving_le (heps : 0 ≤ eps) (h : d.tableau.leaving? eps d.basis c = some row) :
    ∃ r, row = r + 1 ∧ d.Bounds eps c r ∧ ∀ i, d.Bounds eps c i →
      d.ratio c r ≤ d.ratio c i + (d.tableau.numConstraints - 1 : Nat) * eps := by
  obtain ⟨first, rest, hratios, hrow⟩ := exists_foldl_of_leaving? h
  have hmem := Tableau.foldl_betterRow_mem eps d.basis rest first
  rw [← hratios] at hmem
  obtain ⟨r, hr, hlast⟩ := bounds_of_mem_ratios hmem
  refine ⟨r, by rw [hrow, hlast], hr, ?_⟩
  have hlength : rest.length ≤ d.tableau.numConstraints - 1 := by
    have hall := length_ratios_le eps d.tableau c
    rw [hratios, List.length_cons] at hall
    omega
  have hcast : (rest.length : K) ≤ (d.tableau.numConstraints - 1 : Nat) := Nat.cast_le.2 hlength
  intro i hi
  have hle := foldl_betterRow_le heps d.basis rest first _ (hratios ▸ mem_ratios_of_bounds hi)
  rw [hlast] at hle
  exact hle.trans (add_le_add_right (mul_le_mul_of_nonneg_right hcast heps) _)

/-! ## Separated ties -/

/-- If the second row is tied, then so is the first, and its basic variable comes no later. -/
def Prevails (eps : K) (d : Dictionary K) (c : Nat) (x y : Nat × K) : Prop :=
  d.IsTied eps c (y.1 - 1) → d.IsTied eps c (x.1 - 1) ∧ d.basic (x.1 - 1) ≤ d.basic (y.1 - 1)

omit [IsStrictOrderedRing K] in
theorem Prevails.trans {x y z : Nat × K} (hxy : d.Prevails eps c x y)
    (hyz : d.Prevails eps c y z) : d.Prevails eps c x z := by
  intro hz
  obtain ⟨hy, hle⟩ := hyz hz
  obtain ⟨hx, hle'⟩ := hxy hy
  exact ⟨hx, hle'.trans hle⟩

namespace SeparatesTies

variable (h : d.SeparatesTies eps c)

include h

theorem prevails_betterRow {x y : Nat × K} (hx : x ∈ d.tableau.ratios eps c)
    (hy : y ∈ d.tableau.ratios eps c) :
    d.Prevails eps c (Tableau.betterRow eps d.basis x y) x ∧
      d.Prevails eps c (Tableau.betterRow eps d.basis x y) y := by
  obtain ⟨i, hi, rfl⟩ := bounds_of_mem_ratios hx
  obtain ⟨k, hk, rfl⟩ := bounds_of_mem_ratios hy
  unfold Tableau.betterRow
  dsimp only
  split_ifs with hbetter
  · refine ⟨fun hi' => ?_, fun hk' => ⟨hk', le_rfl⟩⟩
    simp only [Nat.add_sub_cancel] at hi' ⊢
    rcases hbetter with hsmaller | ⟨hnear, hindex⟩
    · have hle := (isTied_iff.1 hi').2 k hk
      linarith
    · by_cases hk' : d.IsTied eps c k
      · exact ⟨hk', hindex.le⟩
      · have hfar := h.apart i k hi' hk hk'
        have hhigh := (abs_lt.1 hnear).2
        linarith
  · refine ⟨fun hi' => ⟨hi', le_rfl⟩, fun hk' => ?_⟩
    simp only [Nat.add_sub_cancel] at hk' ⊢
    push Not at hbetter
    obtain ⟨hnot, htie⟩ := hbetter
    by_cases hi' : d.IsTied eps c i
    · refine ⟨hi', ?_⟩
      by_cases hik : i = k
      · rw [hik]
      · exact htie (h.close k i (Ne.symm hik) hk' hi')
    · have hfar := h.apart k i hk' hi hi'
      linarith

theorem isBlandRow (heps : 0 ≤ eps) (hrow : d.tableau.leaving? eps d.basis c = some row) :
    ∃ r, row = r + 1 ∧ d.IsBlandRow eps c r := by
  obtain ⟨first, rest, hratios, rfl⟩ := exists_foldl_of_leaving? hrow
  obtain ⟨hmem, hbest⟩ := foldl_choice (Tableau.betterRow_eq_or eps d.basis)
    (fun x (hx : d.IsTied eps c (x.1 - 1)) => ⟨hx, le_rfl⟩) (fun _ _ _ => Prevails.trans)
    (fun x y hx hy => h.prevails_betterRow hx hy) rest first (fun x hx => by rwa [hratios])
  rw [← hratios] at hmem hbest
  obtain ⟨r, hr, hlast⟩ := bounds_of_mem_ratios hmem
  rw [hlast] at hbest
  have hprevails : ∀ i, d.IsTied eps c i → d.IsTied eps c r ∧ d.basic r ≤ d.basic i :=
    fun i hi => hbest _ (mem_ratios_of_bounds hi.1) hi
  -- the row of the smallest ratio is tied
  obtain ⟨least, hleast⟩ := exists_isLeast hr
  obtain ⟨k, hk, rfl⟩ := hleast.1
  have hk' : d.IsTied eps c k := ⟨hk, _, hleast, by rwa [sub_self, abs_zero]⟩
  exact ⟨r, by rw [hlast], (hprevails k hk').1, fun i hi => (hprevails i hi).2⟩

end SeparatesTies

/-! ## Other orders of the rows -/

/-- Constraint row `i` of `e` is row `σ i` of `d`. Nothing is said of the basic variables. -/
structure RearrangedBy (σ : Equiv.Perm Nat) (d e : Dictionary K) : Prop where
  numRows : e.tableau.numRows = d.tableau.numRows
  numColumns : e.tableau.numColumns = d.tableau.numColumns
  lt_iff : ∀ i, σ i < d.tableau.numConstraints ↔ i < d.tableau.numConstraints
  entry_eq : ∀ i < d.tableau.numConstraints, ∀ j < d.tableau.numColumns,
    e.tableau.entry (i + 1) j = d.tableau.entry (σ i + 1) j

/-- In every order of the rows and with every basis the ratio test takes the Bland row. -/
def FollowsBland (eps : K) (d : Dictionary K) (c : Nat) : Prop :=
  ∀ σ e, RearrangedBy σ d e → e.basis.length = e.tableau.numConstraints → e.basis.Nodup →
    ∀ row, e.tableau.leaving? eps e.basis c = some row → ∃ r, row = r + 1 ∧ e.IsBlandRow eps c r

/-- The basic variable that the ratio test makes leave. -/
def leavingVariable? (eps : K) (d : Dictionary K) (c : Nat) : Option Nat :=
  (d.tableau.leaving? eps d.basis c).map fun row => d.basic (row - 1)

namespace RearrangedBy

variable {σ : Equiv.Perm Nat} {e : Dictionary K}

omit [LinearOrder K] [IsStrictOrderedRing K] in
theorem refl (d : Dictionary K) : RearrangedBy (Equiv.refl Nat) d d :=
  ⟨rfl, rfl, fun _ => Iff.rfl, fun _ _ _ _ => rfl⟩

variable (h : RearrangedBy σ d e)

include h

omit [LinearOrder K] [IsStrictOrderedRing K] in
theorem numConstraints : e.tableau.numConstraints = d.tableau.numConstraints := by
  rw [Tableau.numConstraints, h.numRows, Tableau.numConstraints]

variable (hc : c < d.tableau.numColumns)

include hc

omit [LinearOrder K] [IsStrictOrderedRing K] in
theorem ratio_eq (hi : i < d.tableau.numConstraints) : e.ratio c i = d.ratio c (σ i) := by
  rw [ratio, ratio, h.entry_eq i hi c hc, Tableau.rhs, Tableau.rhsColumn, h.numColumns,
    h.entry_eq i hi _ (Nat.sub_lt (Nat.zero_lt_of_lt hc) Nat.one_pos)]
  rfl

omit [IsStrictOrderedRing K] in
theorem bounds_iff : e.Bounds eps c i ↔ d.Bounds eps c (σ i) := by
  rw [Bounds, Bounds, h.numConstraints, h.lt_iff]
  exact and_congr_right fun hi => by rw [h.entry_eq i hi c hc]

omit [IsStrictOrderedRing K] in
theorem boundingRatios_eq : e.boundingRatios eps c = d.boundingRatios eps c := by
  ext x
  constructor
  · rintro ⟨i, hi, rfl⟩
    exact ⟨σ i, (h.bounds_iff hc).1 hi, (h.ratio_eq hc (h.numConstraints ▸ hi.1)).symm⟩
  · rintro ⟨k, hk, rfl⟩
    obtain ⟨i, rfl⟩ := σ.surjective k
    exact ⟨i, (h.bounds_iff hc).2 hk, h.ratio_eq hc ((h.lt_iff i).1 hk.1)⟩

omit [IsStrictOrderedRing K] in
theorem isTied_iff : e.IsTied eps c i ↔ d.IsTied eps c (σ i) := by
  rw [IsTied, IsTied, h.boundingRatios_eq hc, h.bounds_iff hc]
  exact and_congr_right fun hi => by rw [h.ratio_eq hc ((h.lt_iff i).1 hi.1)]

omit [IsStrictOrderedRing K] in
theorem separatesTies (hsep : d.SeparatesTies eps c) : e.SeparatesTies eps c where
  close i k hne hi hk := by
    rw [h.ratio_eq hc (h.numConstraints ▸ hi.1.1), h.ratio_eq hc (h.numConstraints ▸ hk.1.1)]
    exact hsep.close _ _ (σ.injective.ne hne) ((h.isTied_iff hc).1 hi) ((h.isTied_iff hc).1 hk)
  apart i k hi hk hk' := by
    rw [h.ratio_eq hc (h.numConstraints ▸ hi.1.1), h.ratio_eq hc (h.numConstraints ▸ hk.1)]
    exact hsep.apart _ _ ((h.isTied_iff hc).1 hi) ((h.bounds_iff hc).1 hk)
      (mt (h.isTied_iff hc).2 hk')

theorem leavingVariable?_eq (heps : 0 ≤ eps) (hsep : d.SeparatesTies eps c)
    (hbasic : ∀ i < d.tableau.numConstraints, e.basic i = d.basic (σ i)) :
    e.leavingVariable? eps c = d.leavingVariable? eps c := by
  have hnone : e.tableau.leaving? eps e.basis c = none ↔
      d.tableau.leaving? eps d.basis c = none := by
    rw [leaving?_eq_none_iff, leaving?_eq_none_iff, h.numConstraints]
    constructor
    · intro hle k hk
      obtain ⟨i, rfl⟩ := σ.surjective k
      rw [← h.entry_eq i ((h.lt_iff i).1 hk) c hc]
      exact hle i ((h.lt_iff i).1 hk)
    · intro hle i hi
      rw [h.entry_eq i hi c hc]
      exact hle _ ((h.lt_iff i).2 hi)
  unfold leavingVariable?
  cases hd : d.tableau.leaving? eps d.basis c with
  | none =>
    rw [hnone.2 hd]
    rfl
  | some row =>
    obtain ⟨row', he⟩ := Option.ne_none_iff_exists'.1 (mt hnone.1 (by rw [hd]; nofun))
    obtain ⟨r, rfl, hr⟩ := hsep.isBlandRow heps hd
    obtain ⟨s, rfl, hs⟩ := (h.separatesTies hc hsep).isBlandRow heps he
    obtain ⟨k, rfl⟩ := σ.surjective r
    rw [he]
    have hle := hr.basic_le _ ((h.isTied_iff hc).1 hs.tied)
    have hge := hs.basic_le k ((h.isTied_iff hc).2 hr.tied)
    rw [hbasic k ((h.lt_iff k).1 hr.tied.1.1)] at hge
    rw [← hbasic s (h.numConstraints ▸ hs.tied.1.1)] at hle
    exact congrArg some (le_antisymm hge hle)

end RearrangedBy

/-! ## Two rows read first -/

/-- Row `i` is row `σ i` of `d`. -/
def rearrange (d : Dictionary K) (σ : Equiv.Perm Nat) (basis : List Nat) : Dictionary K where
  tableau := .ofFn d.tableau.numRows d.tableau.numColumns fun i j =>
    match i with
    | 0 => d.tableau.entry 0 j
    | i + 1 => d.tableau.entry (σ i + 1) j
  basis

omit [LinearOrder K] [IsStrictOrderedRing K] in
theorem rearrangedBy_rearrange {σ : Equiv.Perm Nat}
    (hσ : ∀ i, σ i < d.tableau.numConstraints ↔ i < d.tableau.numConstraints)
    (basis : List Nat) : RearrangedBy σ d (d.rearrange σ basis) where
  numRows := rfl
  numColumns := rfl
  lt_iff := hσ
  entry_eq i hi j hj := by
    have hi' : i + 1 < d.tableau.numRows := by
      unfold Tableau.numConstraints at hi
      omega
    exact Tableau.entry_ofFn _ hi' hj

theorem exists_perm {m x y : Nat} (hx : x < m) (hy : y < m) (hne : x ≠ y) :
    ∃ σ : Equiv.Perm Nat, σ 0 = x ∧ σ 1 = y ∧ ∀ i, σ i < m ↔ i < m := by
  have hswap : ∀ a b, a < m → b < m → ∀ i, Equiv.swap a b i < m ↔ i < m := by
    intro a b ha hb i
    rw [Equiv.swap_apply_def]
    split_ifs <;> omega
  have hfirst : Equiv.swap 0 x y ≠ 0 := by
    rw [Equiv.swap_apply_def]
    split_ifs <;> omega
  have hlt := (hswap 0 x (by omega) hx y).2 hy
  refine ⟨(Equiv.swap 1 (Equiv.swap 0 x y)).trans (Equiv.swap 0 x), ?_, ?_, ?_⟩
  · rw [Equiv.trans_apply, Equiv.swap_apply_of_ne_of_ne Nat.zero_ne_one hfirst.symm,
      Equiv.swap_apply_left]
  · rw [Equiv.trans_apply, Equiv.swap_apply_left, Equiv.swap_apply_self]
  · intro i
    rw [Equiv.trans_apply, hswap 0 x (by omega) hx, hswap 1 _ (by omega) hlt]

/-- Row `k` would take over from row `i`, had it the smaller basic variable. -/
def TakesOver (eps : K) (d : Dictionary K) (c i k : Nat) : Prop :=
  d.ratio c k < d.ratio c i - eps ∨ |d.ratio c k - d.ratio c i| < eps

instance (eps : K) (d : Dictionary K) (c i k : Nat) : Decidable (d.TakesOver eps c i k) :=
  inferInstanceAs (Decidable (_ ∨ _))

omit [IsStrictOrderedRing K] in
theorem betterRow_of_basic_lt (hlt : d.basic k < d.basic i) :
    Tableau.betterRow eps d.basis (i + 1, d.ratio c i) (k + 1, d.ratio c k) =
      if d.TakesOver eps c i k then (k + 1, d.ratio c k) else (i + 1, d.ratio c i) := by
  have hlt' : d.basis.getD (k + 1 - 1) 0 < d.basis.getD (i + 1 - 1) 0 := hlt
  simp only [Tableau.betterRow, hlt', and_true]
  rfl

omit [IsStrictOrderedRing K] in
theorem exists_ratios_of_first_two (h₀ : d.Bounds eps c 0) (h₁ : d.Bounds eps c 1) :
    ∃ rest, (∀ x ∈ rest, 3 ≤ x.1) ∧
      d.tableau.ratios eps c = (1, d.ratio c 0) :: (2, d.ratio c 1) :: rest := by
  obtain ⟨n, hn⟩ := Nat.exists_eq_add_of_lt h₁.1
  have hrows : List.range' 1 d.tableau.numConstraints = 1 :: 2 :: List.range' 3 n := by
    rw [hn, show 1 + n + 1 = n + 1 + 1 by omega, List.range'_succ, List.range'_succ]
  simp only [Tableau.ratios, hrows, List.filterMap_cons, if_neg (not_le.2 h₀.2),
    if_neg (not_le.2 h₁.2)]
  refine ⟨_, ?_, rfl⟩
  intro x hx
  obtain ⟨i, hi, hix⟩ := List.mem_filterMap.1 hx
  split_ifs at hix
  cases hix
  exact (List.mem_range'_1.1 hi).1

omit [IsStrictOrderedRing K] in
/-- The loser of the first comparison is not looked at again. -/
theorem leaving?_of_first_two (h₀ : d.Bounds eps c 0) (h₁ : d.Bounds eps c 1)
    (hlt : d.basic 1 < d.basic 0) :
    ∃ row, d.tableau.leaving? eps d.basis c = some row ∧
      (row = 1 → ¬ d.TakesOver eps c 0 1) ∧ (row = 2 → d.TakesOver eps c 0 1) := by
  obtain ⟨rest, hrest, hratios⟩ := exists_ratios_of_first_two h₀ h₁
  refine ⟨_, leaving?_of_ratios hratios, ?_⟩
  rw [List.foldl_cons, betterRow_of_basic_lt hlt]
  rcases List.mem_cons.1 (Tableau.foldl_betterRow_mem eps d.basis rest _) with hfirst | hlater
  · rw [hfirst]
    split_ifs with htakes
    · exact ⟨fun h => absurd h (Nat.succ_ne_self 1), fun _ => htakes⟩
    · exact ⟨fun _ => htakes, fun h => absurd h (Nat.succ_ne_self 1).symm⟩
  · have hge := hrest _ hlater
    exact ⟨fun _ => by omega, fun _ => by omega⟩

namespace FollowsBland

variable (h : d.FollowsBland eps c) (hc : c < d.tableau.numColumns) (hne : i ≠ k)

include h hc hne

omit [IsStrictOrderedRing K] in
/-- Rows `i` and `k` are read first, with the basic variables 1 and 0. -/
theorem takesOver (hi : d.Bounds eps c i) (hk : d.Bounds eps c k) :
    (d.IsTied eps c k → d.TakesOver eps c i k) ∧
      (d.IsTied eps c i → d.TakesOver eps c i k → d.IsTied eps c k) := by
  obtain ⟨σ, rfl, rfl, hσ⟩ := exists_perm hi.1 hk.1 hne
  let e := d.rearrange σ ((List.range d.tableau.numConstraints).map (Equiv.swap 0 1))
  have he : RearrangedBy σ d e := rearrangedBy_rearrange hσ _
  have hlt₁ : 1 < d.tableau.numConstraints := (hσ 1).1 hk.1
  have hbasic : ∀ r < d.tableau.numConstraints, e.basic r = Equiv.swap 0 1 r := by
    intro r hr
    simp [e, rearrange, basic, hr]
  have hbasic₀ : e.basic 0 = 1 := hbasic 0 (Nat.zero_lt_of_lt hlt₁)
  have hbasic₁ : e.basic 1 = 0 := hbasic 1 hlt₁
  have htakes : e.TakesOver eps c 0 1 ↔ d.TakesOver eps c (σ 0) (σ 1) := by
    rw [TakesOver, TakesOver, he.ratio_eq hc hlt₁, he.ratio_eq hc (Nat.zero_lt_of_lt hlt₁)]
  obtain ⟨row, hrow, hfirst, hsecond⟩ := leaving?_of_first_two ((he.bounds_iff hc).2 hi)
    ((he.bounds_iff hc).2 hk) (by rw [hbasic₀, hbasic₁]; exact Nat.one_pos)
  obtain ⟨r, rfl, hr⟩ := h σ e he (by rw [he.numConstraints]; simp [e, rearrange])
    (List.nodup_range.map (Equiv.swap 0 1).injective) row hrow
  -- only rows 0 and 1 have basic variables as small as theirs
  have hle : ∀ s, e.IsTied eps c s → Equiv.swap 0 1 r ≤ e.basic s := by
    intro s hs
    rw [← hbasic r (he.numConstraints ▸ hr.tied.1.1)]
    exact hr.basic_le s hs
  rw [htakes] at hfirst hsecond
  constructor
  · intro hk'
    have hle₁ := hle 1 ((he.isTied_iff hc).2 hk')
    rw [hbasic₁, Equiv.swap_apply_def] at hle₁
    refine hsecond ?_
    split_ifs at hle₁ <;> omega
  · intro hi' htakes'
    have hle₀ := hle 0 ((he.isTied_iff hc).2 hi')
    rw [hbasic₀, Equiv.swap_apply_def] at hle₀
    obtain rfl : r = 1 := by
      have hne₀ : r ≠ 0 := by
        rintro rfl
        exact hfirst rfl htakes'
      split_ifs at hle₀ <;> omega
    exact (he.isTied_iff hc).1 hr.tied

end FollowsBland

theorem separatesTies_iff (heps : 0 ≤ eps) (hc : c < d.tableau.numColumns) :
    d.SeparatesTies eps c ↔ d.FollowsBland eps c := by
  constructor
  · intro h σ e he _ _ row hrow
    exact (he.separatesTies hc h).isBlandRow heps hrow
  · intro h
    constructor
    · intro i k hne hi hk
      rcases (h.takesOver hc (Ne.symm hne) hk.1 hi.1).1 hi with hsmaller | hnear
      · have hle := (isTied_iff.1 hk).2 i hi.1
        linarith
      · exact hnear
    · intro i k hi hk hk'
      have hne : i ≠ k := by
        rintro rfl
        exact hk' hi
      rcases (h.takesOver hc (Ne.symm hne) hk hi.1).1 hi with hsmaller | hnear
      · linarith
      · rw [abs_sub_comm] at hnear
        exact absurd ((h.takesOver hc hne hi.1 hk).2 hi (Or.inr hnear)) hk'

/-- The ratio test, for every tableau, basis, column and tolerance. No row leaves exactly when no
entry is above the tolerance; the ratio of the row that leaves is the smallest one up to one
tolerance for each further row; it is the Bland row in every order of the rows and with every basis
exactly when ties are separated, and then the order does not change which variable leaves. -/
theorem ratioTest_spec (heps : 0 ≤ eps) (hc : c < d.tableau.numColumns) :
    (d.tableau.leaving? eps d.basis c = none ↔
      ∀ i < d.tableau.numConstraints, d.tableau.entry (i + 1) c ≤ eps) ∧
    (∀ row, d.tableau.leaving? eps d.basis c = some row →
      ∃ r, row = r + 1 ∧ d.Bounds eps c r ∧ ∀ i, d.Bounds eps c i →
        d.ratio c r ≤ d.ratio c i + (d.tableau.numConstraints - 1 : Nat) * eps) ∧
    (d.SeparatesTies eps c ↔ d.FollowsBland eps c) ∧
    (d.SeparatesTies eps c → ∀ σ e, RearrangedBy σ d e →
      (∀ i < d.tableau.numConstraints, e.basic i = d.basic (σ i)) →
      e.leavingVariable? eps c = d.leavingVariable? eps c) :=
  ⟨leaving?_eq_none_iff, fun _ h => ratio_leaving_le heps h, separatesTies_iff heps hc,
    fun hsep _ _ he hbasic => he.leavingVariable?_eq hc heps hsep hbasic⟩

/-- Three rows that bound column 0 by 2, 1 and 1. -/
def twoTied : Dictionary ℚ where
  tableau := .ofFn 4 2 fun i j => ([[0, 0], [1, 2], [1, 1], [2, 2]].getD i []).getD j 0
  basis := [1, 7, 4]

theorem ratioTest_spec_twoTied : 0 ≤ (1 / 10 : ℚ) ∧ 0 < twoTied.tableau.numColumns ∧
    twoTied.SeparatesTies (1 / 10) 0 ∧ twoTied.FollowsBland (1 / 10) 0 ∧
    twoTied.tableau.leaving? (1 / 10) twoTied.basis 0 = some 3 ∧ twoTied.Bounds (1 / 10) 0 2 ∧
    twoTied.IsBlandRow (1 / 10) 0 2 ∧
    ∀ σ e, RearrangedBy σ twoTied e → (∀ i < 3, e.basic i = twoTied.basic (σ i)) →
      e.leavingVariable? (1 / 10) 0 = some 4 := by
  have heps : 0 ≤ (1 / 10 : ℚ) := by norm_num
  have hc : 0 < twoTied.tableau.numColumns := by decide
  have hclose : ∀ i < 3, ∀ k < 3, i ≠ k ∧ twoTied.IsTied (1 / 10) 0 i ∧
      twoTied.IsTied (1 / 10) 0 k → |twoTied.ratio 0 i - twoTied.ratio 0 k| < 1 / 10 := by
    decide +kernel
  have hapart : ∀ i < 3, ∀ k < 3, twoTied.IsTied (1 / 10) 0 i ∧ ¬ twoTied.IsTied (1 / 10) 0 k →
      twoTied.ratio 0 i + 1 / 10 < twoTied.ratio 0 k := by
    decide +kernel
  have hsep : twoTied.SeparatesTies (1 / 10) 0 :=
    ⟨fun i k hne hi hk => hclose i hi.1.1 k hk.1.1 ⟨hne, hi, hk⟩,
      fun i k hi hk hk' => hapart i hi.1.1 k hk.1 ⟨hi, hk'⟩⟩
  have hrow : twoTied.tableau.leaving? (1 / 10) twoTied.basis 0 = some 3 := by decide +kernel
  have hvariable : twoTied.leavingVariable? (1 / 10) 0 = some 4 := by decide +kernel
  obtain ⟨_, hsome, hiff, horder⟩ := ratioTest_spec heps hc
  obtain ⟨r, hr, hbounds, _⟩ := hsome 3 hrow
  obtain rfl : r = 2 := by omega
  exact ⟨heps, hc, hsep, hiff.1 hsep, hrow, hbounds, by decide +kernel,
    fun σ e he hbasic => (horder hsep σ e he hbasic).trans hvariable⟩

/-- Three rows that bound column 0 by 1.5, 0.75 and 0 tolerances, where the tolerance is 1e-10. -/
def chain : Tableau ℚ :=
  .ofFn 4 5 fun i j => ([[-1, 0, 0, 0, 0], [1, 1, 0, 0, 1.5e-10], [1, 0, 1, 0, 7.5e-11],
    [1, 0, 0, 1, 0]].getD i []).getD j 0

/-- The rows of `chain` in the opposite order, each with its basic variable. -/
def chainReversed : Dictionary ℚ :=
  (start chain).rearrange (Equiv.swap 0 2) [3, 2, 1]

/-- After its first exchange two rows bound column 1 by 1, the first of them with the larger basic
variable. -/
def equalRatios : Tableau ℚ :=
  .ofFn 3 5 fun i j => ([[-1, -2, 0, 0, 0], [0, 1, 1, 0, 1],
    [1, 1, 0, 1, 1]].getD i []).getD j 0

/-- Of near ties, neither order takes the Bland row, and the order changes which variable leaves. Of
equal ratios at tolerance zero the first row is taken, and the second is the Bland row. -/
theorem leaving_not_isBlandRow :
    (start chain).basis.Nodup ∧ (start chain).IsBlandRow 1e-10 0 1 ∧
    chain.leaving? 1e-10 (start chain).basis 0 = some 3 ∧ ¬ (start chain).IsBlandRow 1e-10 0 2 ∧
    RearrangedBy (Equiv.swap 0 2) (start chain) chainReversed ∧
    (∀ i < 3, chainReversed.basic i = (start chain).basic (Equiv.swap 0 2 i)) ∧
    (start chain).leavingVariable? 1e-10 0 = some 3 ∧
    chainReversed.leavingVariable? 1e-10 0 = some 1 ∧
    (start equalRatios).choose 0 = .exchange 2 0 ∧
    ((start equalRatios).exchange 2 0).basis = [2, 0] ∧
    ((start equalRatios).exchange 2 0).choose 0 = .exchange 1 1 ∧
    ((start equalRatios).exchange 2 0).IsBlandRow 0 1 1 ∧
    ¬ ((start equalRatios).exchange 2 0).IsBlandRow 0 1 0 := by
  refine ⟨by decide, by decide +kernel, by decide +kernel, by decide +kernel,
    rearrangedBy_rearrange ?_ _, by decide, by decide +kernel, by decide +kernel,
    by decide +kernel, by decide, by decide +kernel, by decide +kernel, by decide +kernel⟩
  intro i
  show Equiv.swap 0 2 i < 3 ↔ i < 3
  rw [Equiv.swap_apply_def]
  split_ifs <;> omega

end Dictionary
end PenaltySimplex
