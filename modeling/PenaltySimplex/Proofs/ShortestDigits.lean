import PenaltySimplex.Decimal.Shortest
import PenaltySimplex.Proofs.RoundingInterval
import PenaltySimplex.Proofs.WrittenNumber

/-!
# PenaltySimplex.Proofs.ShortestDigits

The digits that `shortest` finds stand for a number that rounds to the double
(`roundsTo_shortest`), up to the largest double (`shortest_le_greatest`).

The search tries up to seventeen digits. The unit of the last one is then less than a step between
doubles (`ten_zpow_mul_le`), so a multiple of it next to the value is in the rounding interval
(`exists_isNext`) and the search finds one (`exists_shortest`).
-/

namespace PenaltySimplex.Decimal

/-! ## The scale of the comparison -/

/-- A quarter of `2 ^ q` and `10 ^ p` are both integers at this scale. -/
def scale (q p : ℤ) : Nat :=
  powerOfTwo (2 - q).toNat * powerOfTen (-p).toNat

def unit (q p : ℤ) : Nat :=
  powerOfTen p.toNat * powerOfTwo (2 - q).toNat

def quarter (q p : ℤ) : Nat :=
  powerOfTwo (q - 2).toNat * powerOfTen (-p).toNat

theorem cast_powerOfTen (n : Nat) : ((powerOfTen n : Nat) : ℚ) = 10 ^ (n : ℤ) := by
  rw [zpow_natCast]
  exact Nat.cast_pow 10 n

theorem powerOfTen_pos (n : Nat) : 0 < powerOfTen n :=
  Nat.pow_pos (by decide)

theorem scale_pos (q p : ℤ) : 0 < scale q p :=
  Nat.mul_pos (Binary.powerOfTwo_pos _) (powerOfTen_pos _)

theorem unit_pos (q p : ℤ) : 0 < unit q p :=
  Nat.mul_pos (powerOfTen_pos _) (Binary.powerOfTwo_pos _)

theorem cast_unit (q p : ℤ) : (unit q p : ℚ) = 10 ^ p * scale q p := by
  have hpower : (10 : ℚ) ^ p * 10 ^ ((-p).toNat : ℤ) = 10 ^ (p.toNat : ℤ) := by
    rw [← zpow_add₀ (by norm_num)]
    congr 1
    omega
  rw [unit, scale, Nat.cast_mul, Nat.cast_mul, cast_powerOfTen, cast_powerOfTen, ← hpower]
  ring

theorem cast_quarter (q p : ℤ) : (quarter q p : ℚ) = 2 ^ (q - 2) * scale q p := by
  have hpower : (2 : ℚ) ^ (q - 2) * 2 ^ ((2 - q).toNat : ℤ) = 2 ^ ((q - 2).toNat : ℤ) := by
    rw [← zpow_add₀ two_ne_zero]
    congr 1
    omega
  rw [quarter, scale, Nat.cast_mul, Nat.cast_mul, Binary.cast_powerOfTwo, Binary.cast_powerOfTwo,
    ← hpower]
  ring

theorem cast_value (m : Nat) (q p : ℤ) :
    ((4 * m * quarter q p : Nat) : ℚ) = m * 2 ^ q * scale q p := by
  have hpower : (2 : ℚ) ^ q = 4 * 2 ^ (q - 2) := by
    rw [zpow_sub₀ two_ne_zero]
    norm_num
    ring
  rw [Nat.cast_mul, Nat.cast_mul, cast_quarter, hpower]
  push_cast
  ring

/-! ## Candidates -/

/-- Halfway to the next double below and to the next one above. -/
def lowEnd (m : Nat) (q p : ℤ) : Nat :=
  if m = leastNormal ∧ -1074 < q then 4 * m * quarter q p - quarter q p
  else 4 * m * quarter q p - 2 * quarter q p

def highEnd (m : Nat) (q p : ℤ) : Nat :=
  4 * m * quarter q p + 2 * quarter q p

/-- Whether so many units are between the halfway points to the neighbours. -/
def readsBack (m : Nat) (q p : ℤ) (d : Nat) : Bool :=
  if m % 2 = 0 then decide (lowEnd m q p ≤ d * unit q p ∧ d * unit q p ≤ highEnd m q p)
  else decide (lowEnd m q p < d * unit q p ∧ d * unit q p < highEnd m q p)

theorem candidate_eq (tie : Tie) (m : Nat) (q p : ℤ) :
    candidate tie m q p =
      let low := 4 * m * quarter q p / unit q p
      let rest := 2 * (4 * m * quarter q p % unit q p)
      match decide (0 < low) && readsBack m q p low, readsBack m q p (low + 1) with
      | true, true =>
        some (if rest < unit q p then low else if unit q p < rest then low + 1 else tie.choose low)
      | true, false => some low
      | false, true => some (low + 1)
      | false, false => none := rfl

theorem cast_lowEnd {m : Nat} (hm : 0 < m) (q p : ℤ) :
    (lowEnd m q p : ℚ) = (m * 2 ^ q - stepBelow m q / 2) * scale q p := by
  have hquarters (k : Nat) (hk : k ≤ 4) : k * quarter q p ≤ 4 * m * quarter q p :=
    Nat.mul_le_mul_right _ (by omega)
  have hhalf := two_zpow_sub_one q
  have hhalf' := two_zpow_sub_one (q - 1)
  rw [sub_sub, one_add_one_eq_two] at hhalf'
  unfold lowEnd stepBelow
  split
  · have hone := hquarters 1 (by decide)
    rw [Nat.one_mul] at hone
    rw [Nat.cast_sub hone, cast_value, cast_quarter, hhalf']
    ring
  · rw [Nat.cast_sub (hquarters 2 (by decide)), cast_value, Nat.cast_mul, cast_quarter, hhalf,
      hhalf']
    push_cast
    ring

theorem cast_highEnd (m : Nat) (q p : ℤ) :
    (highEnd m q p : ℚ) = (m * 2 ^ q + 2 ^ q / 2) * scale q p := by
  have hhalf := two_zpow_sub_one q
  have hhalf' := two_zpow_sub_one (q - 1)
  rw [sub_sub, one_add_one_eq_two] at hhalf'
  rw [highEnd, Nat.cast_add, cast_value, Nat.cast_mul, cast_quarter, hhalf, hhalf']
  push_cast
  ring

/-- Multiples of the unit that read back stand for numbers that round to the double. -/
theorem readsBack_iff {m : Nat} (hm : 0 < m) (q p : ℤ) (d : Nat) :
    readsBack m q p d = true ↔ RoundsTo m q (d * 10 ^ p) := by
  have hscale : (0 : ℚ) < scale q p := Nat.cast_pos.2 (scale_pos q p)
  have hunits : ((d * unit q p : Nat) : ℚ) = d * 10 ^ p * scale q p := by
    rw [Nat.cast_mul, cast_unit]
    ring
  have hlow := cast_lowEnd hm q p
  have hhigh := cast_highEnd m q p
  unfold readsBack RoundsTo
  split
  · rw [decide_eq_true_iff, ← Nat.cast_le (α := ℚ), ← Nat.cast_le (α := ℚ), hunits, hlow, hhigh,
      mul_le_mul_iff_of_pos_right hscale, mul_le_mul_iff_of_pos_right hscale]
  · rw [decide_eq_true_iff, ← Nat.cast_lt (α := ℚ), ← Nat.cast_lt (α := ℚ), hunits, hlow, hhigh,
      mul_lt_mul_iff_of_pos_right hscale, mul_lt_mul_iff_of_pos_right hscale]

theorem choose_eq_or (tie : Tie) (low : Nat) : tie.choose low = low ∨ tie.choose low = low + 1 := by
  cases tie with
  | up => exact .inr rfl
  | even =>
    obtain h | h := Nat.mod_two_eq_zero_or_one low
    · exact .inl (by rw [Tie.choose, h, Nat.add_zero])
    · exact .inr (by rw [Tie.choose, h])

/-- The two multiples of the unit next to the value. -/
def IsNext (m : Nat) (q p : ℤ) (d : Nat) : Prop :=
  0 < d ∧ (d = 4 * m * quarter q p / unit q p ∨ d = 4 * m * quarter q p / unit q p + 1)

/-- A candidate reads back. -/
theorem of_candidate_eq_some {tie : Tie} {m : Nat} {q p : ℤ} {d : Nat}
    (h : candidate tie m q p = some d) : 0 < d ∧ readsBack m q p d = true := by
  rw [candidate_eq] at h
  generalize 4 * m * quarter q p / unit q p = low at h
  dsimp only at h
  split at h
  · rename_i hlow hhigh
    rw [Bool.and_eq_true, decide_eq_true_eq] at hlow
    have hnext : d = low ∨ d = low + 1 := by
      rw [← Option.some.inj h]
      split
      · exact .inl rfl
      · split
        · exact .inr rfl
        · exact choose_eq_or tie low
    obtain rfl | rfl := hnext
    · exact hlow
    · exact ⟨Nat.succ_pos low, hhigh⟩
  · rename_i hlow _
    rw [Bool.and_eq_true, decide_eq_true_eq] at hlow
    obtain rfl := Option.some.inj h
    exact hlow
  · rename_i hhigh
    obtain rfl := Option.some.inj h
    exact ⟨Nat.succ_pos low, hhigh⟩
  · cases h

/-- There is a candidate if one of the multiples next to the value reads back. -/
theorem exists_candidate_of_readsBack (tie : Tie) {m : Nat} {q p : ℤ} {d : Nat}
    (hd : IsNext m q p d) (h : readsBack m q p d = true) :
    ∃ d', candidate tie m q p = some d' := by
  obtain ⟨hpos, hd⟩ := hd
  rw [candidate_eq]
  generalize 4 * m * quarter q p / unit q p = low at hd
  dsimp only
  split
  · exact ⟨_, rfl⟩
  · exact ⟨_, rfl⟩
  · exact ⟨_, rfl⟩
  · rename_i hlow hhigh
    obtain rfl | rfl := hd
    · rw [decide_eq_true hpos, h] at hlow
      cases hlow
    · rw [h] at hhigh
      cases hhigh

/-! ## Seventeen digits -/

theorem le_pow_length_digits {n : Nat} (hn : 0 < n) : 10 ^ ((digits n).length - 1) ≤ n := by
  by_contra hlt
  have hlength : 0 < (digits n).length := Nat.length_toDigits_pos
  have hzero : (digits n).length - 1 ≠ 0 := by
    intro hzero
    rw [hzero] at hlt
    omega
  have hle := (Nat.length_toDigits_le_iff (b := 10) (by decide) (Nat.pos_of_ne_zero hzero)).2
    (not_le.1 hlt)
  unfold digits at hlength hle
  omega

theorem one_le_least_mul : (1 : ℚ) ≤ 2 ^ (-1074 : ℤ) * 10 ^ 330 := by
  have hpower : (2 : ℚ) ^ 1074 ≤ 10 ^ 330 :=
    calc (2 : ℚ) ^ 1074 ≤ 2 ^ (33 * 33) := pow_le_pow_right₀ one_le_two (by decide)
      _ = (2 ^ 33) ^ 33 := pow_mul _ _ _
      _ ≤ (10 ^ 10) ^ 33 := pow_le_pow_left₀ (by positivity) (by norm_num) 33
      _ = 10 ^ 330 := (pow_mul _ _ _).symm
  rw [zpow_neg, zpow_ofNat, ← div_eq_inv_mul, one_le_div₀ (pow_pos two_pos 1074)]
  exact hpower

/-- The leading digit is not past the value. -/
theorem le_of_magnitude {m : Nat} {q : ℤ} (hm : 0 < m) (hq : -1074 ≤ q) :
    (10 : ℚ) ^ (magnitude m q - 1) ≤ m * 2 ^ q := by
  have hden := den_scaled_pos m q 330
  have hcast : (0 : ℚ) < (scaled m q 330).den := Nat.cast_pos.2 hden
  have hnum : ((scaled m q 330).num : ℚ) = m * 2 ^ q * 10 ^ 330 * (scaled m q 330).den :=
    num_scaled_eq m 330 q
  have hone : (1 : ℚ) ≤ m := Nat.one_le_cast.2 hm
  have hlarge : 0 < (scaled m q 330).num / (scaled m q 330).den := by
    refine Nat.div_pos ?_ hden
    rw [← Nat.cast_le (α := ℚ), hnum]
    refine le_mul_of_one_le_left hcast.le ?_
    calc (1 : ℚ) ≤ 2 ^ (-1074 : ℤ) * 10 ^ 330 := one_le_least_mul
      _ ≤ 2 ^ q * 10 ^ 330 :=
        mul_le_mul_of_nonneg_right (zpow_le_zpow_right₀ one_le_two hq) (by positivity)
      _ ≤ m * 2 ^ q * 10 ^ 330 :=
        mul_le_mul_of_nonneg_right (le_mul_of_one_le_left (by positivity) hone) (by positivity)
  have hdigits : ((10 ^ ((digits ((scaled m q 330).num / (scaled m q 330).den)).length - 1) : Nat) :
      ℚ) ≤ m * 2 ^ q * 10 ^ 330 := by
    refine (Nat.cast_le.2 (le_pow_length_digits hlarge)).trans (Nat.cast_div_le.trans ?_)
    rw [hnum, mul_div_cancel_right₀ _ hcast.ne']
  have hlength : 0 < (digits ((scaled m q 330).num / (scaled m q 330).den)).length :=
    Nat.length_toDigits_pos
  show (10 : ℚ) ^
    (((digits ((scaled m q 330).num / (scaled m q 330).den)).length : ℤ) - 330 - 1) ≤ _
  generalize (digits ((scaled m q 330).num / (scaled m q 330).den)).length = l at hdigits hlength
  have hexponent : (l : ℤ) - 330 - 1 = ((l - 1 : Nat) : ℤ) - (330 : Nat) := by omega
  rw [hexponent, zpow_sub₀ (by norm_num), zpow_natCast, zpow_natCast,
    div_le_iff₀ (by positivity)]
  exact_mod_cast hdigits

/-- The unit of the last of seventeen digits. -/
theorem ten_zpow_mul_le {m : Nat} {q : ℤ} (hm : 0 < m) (hq : -1074 ≤ q) :
    (10 : ℚ) ^ (magnitude m q - 17) * 10 ^ 16 ≤ m * 2 ^ q := by
  have hsplit : (10 : ℚ) ^ (magnitude m q - 1) = 10 ^ (magnitude m q - 17) * 10 ^ 16 := by
    rw [← zpow_natCast, ← zpow_add₀ (by norm_num)]
    congr 1
    push_cast
    ring
  rw [← hsplit]
  exact le_of_magnitude hm hq

/-- The value lies between the two multiples of the unit next to it. -/
theorem low_le_value (m : Nat) (q p : ℤ) :
    ((4 * m * quarter q p / unit q p : Nat) : ℚ) * 10 ^ p ≤ m * 2 ^ q ∧
      m * 2 ^ q < (((4 * m * quarter q p / unit q p : Nat) : ℚ) + 1) * 10 ^ p := by
  have hscale : (0 : ℚ) < scale q p := Nat.cast_pos.2 (scale_pos q p)
  have hlow := Nat.div_mul_le_self (4 * m * quarter q p) (unit q p)
  have hhigh := Nat.lt_mul_div_succ (4 * m * quarter q p) (unit_pos q p)
  generalize 4 * m * quarter q p / unit q p = low at hlow hhigh ⊢
  rw [Nat.mul_comm (unit q p)] at hhigh
  rw [← Nat.cast_le (α := ℚ), cast_value, Nat.cast_mul, cast_unit, ← mul_assoc,
    mul_le_mul_iff_of_pos_right hscale] at hlow
  rw [← Nat.cast_lt (α := ℚ), cast_value, Nat.cast_mul, cast_unit, ← mul_assoc,
    mul_lt_mul_iff_of_pos_right hscale] at hhigh
  exact ⟨hlow, by exact_mod_cast hhigh⟩

/-- With seventeen digits a multiple of the unit next to the value reads back. -/
theorem exists_isNext {m : Nat} {q : ℤ} (hform : DoubleForm m q) (hm : 0 < m) :
    ∃ d, IsNext m q (magnitude m q - 17) d ∧ RoundsTo m q (d * 10 ^ (magnitude m q - 17)) := by
  have hunit := ten_zpow_mul_le hm hform.exponent
  generalize magnitude m q - 17 = p at hunit ⊢
  obtain ⟨hlow, hhigh⟩ := low_le_value m q p
  generalize hd : 4 * m * quarter q p / unit q p = low at hlow hhigh
  have hpos : (0 : ℚ) < 10 ^ p := zpow_pos (by norm_num) p
  have hstep : (0 : ℚ) < 2 ^ q := zpow_pos two_pos q
  by_cases hpower : m = leastNormal ∧ -1074 < q
  · -- at a power of two the unit is less than half a step
    have hcast : (m : ℚ) = 2 ^ 52 := by
      rw [hpower.1]
      norm_num [leastNormal]
    have hbelow : (0 : ℚ) < stepBelow m q := by
      rw [stepBelow, if_pos hpower]
      exact zpow_pos two_pos _
    refine ⟨low + 1, ⟨Nat.succ_pos low, .inr (by rw [hd])⟩, .of_lt ?_ ?_⟩
    · push_cast
      linarith
    · push_cast
      rw [hcast] at hunit hlow ⊢
      linarith
  · have hbelow : stepBelow m q = 2 ^ q := if_neg hpower
    have hmantissa : (m : ℚ) * 2 ^ q < 2 ^ 53 * 2 ^ q :=
      mul_lt_mul_of_pos_right (by exact_mod_cast hform.mantissa) hstep
    by_cases hnear : (m : ℚ) * 2 ^ q - low * 10 ^ p ≤ 10 ^ p / 2
    · refine ⟨low, ⟨?_, .inl hd.symm⟩, .of_lt ?_ ?_⟩
      · refine Nat.pos_of_ne_zero ?_
        rintro rfl
        push_cast at hnear
        linarith
      · rw [hbelow]
        linarith
      · linarith
    · refine ⟨low + 1, ⟨Nat.succ_pos low, .inr (by rw [hd])⟩, .of_lt ?_ ?_⟩
      · push_cast
        linarith
      · push_cast
        linarith

/-! ## The digits found -/

/-- A candidate with ten units is one unit of the next size. -/
def ofCandidate (d : Nat) (p : ℤ) : Digits :=
  if d = 10 then ⟨1, p + 1⟩ else ⟨d, p⟩

theorem value_ofCandidate (d : Nat) (p : ℤ) :
    ((ofCandidate d p).digits : ℚ) * 10 ^ (ofCandidate d p).exponent = d * 10 ^ p := by
  unfold ofCandidate
  split
  · rename_i hten
    rw [hten, zpow_add_one₀ (by norm_num)]
    push_cast
    ring
  · rfl

theorem digits_ofCandidate_pos {d : Nat} (hd : 0 < d) (p : ℤ) : 0 < (ofCandidate d p).digits := by
  unfold ofCandidate
  split
  · exact Nat.one_pos
  · exact hd

theorem exists_shortest (tie : Tie) {m : Nat} {q : ℤ} (hform : DoubleForm m q) (hm : 0 < m) :
    ∃ p d, candidate tie m q p = some d ∧ shortest tie m q = ofCandidate d p := by
  obtain ⟨n, hnext, hrounds⟩ := exists_isNext hform hm
  obtain ⟨d, hcandidate⟩ :=
    exists_candidate_of_readsBack tie hnext ((readsBack_iff hm q _ n).2 hrounds)
  let search : Nat → Option Digits := fun k =>
    (candidate tie m q (magnitude m q - (k + 1))).map fun d =>
      ofCandidate d (magnitude m q - (k + 1))
  have hfound : ((List.range 17).findSome? search).isSome := by
    refine List.findSome?_isSome_iff.2 ⟨16, by decide, ?_⟩
    have hlast : magnitude m q - ((16 : Nat) + 1) = magnitude m q - 17 := by
      push_cast
      ring
    simp only [search, hlast, hcandidate, Option.map_some, Option.isSome_some]
  obtain ⟨found, hfound⟩ := Option.isSome_iff_exists.1 hfound
  obtain ⟨k, _, hk⟩ := List.exists_of_findSome?_eq_some hfound
  obtain ⟨d, hd, rfl⟩ := Option.map_eq_some_iff.1 hk
  refine ⟨_, d, hd, ?_⟩
  have hshortest : shortest tie m q = ((List.range 17).findSome? search).getD ⟨0, 0⟩ := rfl
  rw [hshortest, hfound, Option.getD_some]

/-- The digits found are those of a number that rounds to the double. -/
theorem roundsTo_shortest (tie : Tie) {m : Nat} {q : ℤ} (hform : DoubleForm m q) (hm : 0 < m) :
    0 < (shortest tie m q).digits ∧
      RoundsTo m q ((shortest tie m q).digits * 10 ^ (shortest tie m q).exponent) := by
  obtain ⟨p, d, hcandidate, hshortest⟩ := exists_shortest tie hform hm
  obtain ⟨hpos, hread⟩ := of_candidate_eq_some hcandidate
  rw [hshortest, value_ofCandidate]
  exact ⟨digits_ofCandidate_pos hpos p, (readsBack_iff hm q p d).1 hread⟩

/-- The digits of the largest double. -/
theorem shortest_greatest (tie : Tie) :
    shortest tie (2 ^ 53 - 1) 971 = ⟨17976931348623157, 292⟩ := by
  cases tie <;> decide +kernel

/-- Halfway to the next double is not past the largest one. -/
theorem add_half_le_greatest {m : Nat} {q : ℤ} (hm : m < 2 ^ 53) (hq : q ≤ 971)
    (htop : ¬ (m = 2 ^ 53 - 1 ∧ q = 971)) : (m : ℚ) * 2 ^ q + 2 ^ q / 2 ≤ greatest := by
  have hpos : (0 : ℚ) < 2 ^ (971 : ℤ) := zpow_pos two_pos _
  obtain rfl | hlt := eq_or_lt_of_le hq
  · have hcast : ((m + 2 : Nat) : ℚ) ≤ (2 ^ 53 : Nat) := Nat.cast_le.2 (by omega)
    push_cast at hcast
    have hscaled := mul_le_mul_of_nonneg_right hcast hpos.le
    rw [greatest]
    generalize (2 : ℚ) ^ (971 : ℤ) = top at *
    linarith
  · have hcast : ((m + 1 : Nat) : ℚ) ≤ (2 ^ 53 : Nat) := Nat.cast_le.2 hm
    push_cast at hcast
    have hpower : 2 * (2 : ℚ) ^ q ≤ 2 ^ (971 : ℤ) := by
      rw [← zpow_one_add₀ two_ne_zero]
      exact zpow_le_zpow_right₀ one_le_two (by omega)
    have hscaled := mul_le_mul_of_nonneg_right hcast (zpow_pos (two_pos (α := ℚ)) q).le
    rw [greatest]
    generalize (2 : ℚ) ^ (971 : ℤ) = top at *
    linarith

/-- The number found is not past the largest double. -/
theorem shortest_le_greatest (tie : Tie) {m : Nat} {q : ℤ} (hform : DoubleForm m q) (hm : 0 < m)
    (hq : q ≤ 971) :
    ((shortest tie m q).digits : ℚ) * 10 ^ (shortest tie m q).exponent ≤ greatest := by
  by_cases htop : m = 2 ^ 53 - 1 ∧ q = 971
  · obtain ⟨rfl, rfl⟩ := htop
    have hle : 17976931348623157 * 10 ^ 292 ≤ (2 ^ 53 - 1) * 2 ^ 971 := by decide +kernel
    have hcast := (Nat.cast_le (α := ℚ)).2 hle
    rw [Nat.cast_mul, Nat.cast_mul, Nat.cast_pow, Nat.cast_pow, Nat.cast_sub Nat.one_le_two_pow,
      Nat.cast_pow] at hcast
    rw [shortest_greatest, greatest, zpow_ofNat, zpow_ofNat]
    exact hcast
  · exact (roundsTo_shortest tie hform hm).2.bounds.2.trans
      (add_half_le_greatest hform.mantissa hq htop)

end PenaltySimplex.Decimal
