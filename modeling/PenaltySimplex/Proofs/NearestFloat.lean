import PenaltySimplex.Proofs.RoundedFloat

/-!
# PenaltySimplex.Proofs.NearestFloat

How the arithmetic of doubles rounds: to a grid that is fine enough for 53 bits, by half a step at
most, and from halfway to the even neighbour (`toBinary_roundWithAccuracy`).

* `Locates`: what the two bits that are kept of dropped ones say about the number. Dropping another
  bit keeps that up (`Locates.shiftRight`), and rounding by it is off by half a unit at most.
* `RoundsAt`, `RoundsEven`: a number is rounded to a grid. A double is the only one that near to
  itself (`RoundsAt.eq_of_near`), and the only even one halfway (`RoundsEven.eq_of_tie`).
* `toBinary_unpack`: a double stands for the number that the arithmetic computes with, and a number
  in the form of a double is packed without loss (`unpack_pack_finite`).
-/

namespace PenaltySimplex

open Float.Model (Format UnpackedFloat totalExponent)
open Float.Model.UnpackedFloat

/-! ## The bits that are kept of dropped ones -/

/-- Where a number lies in the unit above a mantissa. -/
def Locates (em : ExtendedMantissa) (y : ℚ) : Prop :=
  match em.accuracy with
  | .exact => y = em.mantissa
  | .inexact .lt => em.mantissa < y ∧ y < em.mantissa + 1 / 2
  | .inexact .eq => y = em.mantissa + 1 / 2
  | .inexact .gt => em.mantissa + 1 / 2 < y ∧ y < em.mantissa + 1

theorem accuracy_ofMantissaAndAccuracy (m : Nat) (acc : Accuracy) :
    (ExtendedMantissa.ofMantissaAndAccuracy m acc).accuracy = acc := by
  cases acc with
  | exact => rfl
  | inexact ordering => cases ordering <;> rfl

theorem Locates.shiftRightOne {em : ExtendedMantissa} {y : ℚ} (h : Locates em y) :
    Locates em.shiftRightOne (y / 2) := by
  obtain ⟨m, round, sticky⟩ := em
  have hcast : ((m % 2 : Nat) : ℚ) + 2 * ((m / 2 : Nat) : ℚ) = m := by
    exact_mod_cast Nat.mod_add_div m 2
  obtain hbit | hbit := Nat.mod_two_eq_zero_or_one m <;> rw [hbit] at hcast <;>
    cases round <;> cases sticky <;>
    simp [Locates, ExtendedMantissa.accuracy, ExtendedMantissa.shiftRightOne, hbit] at h hcast ⊢ <;>
    first
      | linarith
      | exact ⟨by linarith, by linarith⟩

theorem Locates.shiftRight {em : ExtendedMantissa} {y : ℚ} (h : Locates em y) (k : Nat) :
    Locates (em >>> k) (y / 2 ^ k) := by
  induction k with
  | zero =>
    rw [pow_zero, div_one]
    exact h
  | succ k ih =>
    rw [pow_succ, ← div_div]
    exact ih.shiftRightOne

theorem Locates.le {em : ExtendedMantissa} {y : ℚ} (h : Locates em y) : (em.mantissa : ℚ) ≤ y := by
  unfold Locates at h
  split at h
  · exact h.ge
  · exact h.1.le
  · linarith
  · linarith [h.1]

theorem Locates.lt_add_one {em : ExtendedMantissa} {y : ℚ} (h : Locates em y) :
    y < (em.mantissa : ℚ) + 1 := by
  unfold Locates at h
  split at h
  · linarith
  · linarith [h.2]
  · linarith
  · exact h.2

/-- A number halfway between two units is rounded to the even one. -/
theorem Locates.even_of_half {em : ExtendedMantissa} {y : ℚ} (h : Locates em y)
    (hhalf : |(em.roundedMantissa : ℚ) - y| = 1 / 2) : Even em.roundedMantissa := by
  unfold Locates at h
  rw [ExtendedMantissa.roundedMantissa] at hhalf ⊢
  split at h <;> rename_i hacc <;> rw [hacc, Accuracy.roundToNearestEven] at hhalf ⊢
  · rw [h, sub_self, abs_zero] at hhalf
    norm_num at hhalf
  · rw [abs_of_neg (by linarith [h.1])] at hhalf
    linarith [h.2]
  · rw [Nat.even_iff]
    omega
  · push_cast at hhalf
    rw [abs_of_pos (by linarith [h.2])] at hhalf
    linarith [h.1]

/-- Rounding is off by half a unit at most. -/
theorem Locates.abs_sub_le {em : ExtendedMantissa} {y : ℚ} (h : Locates em y) :
    |(em.roundedMantissa : ℚ) - y| ≤ 1 / 2 := by
  unfold Locates at h
  rw [ExtendedMantissa.roundedMantissa, abs_le]
  split at h <;> rename_i hacc <;> rw [hacc, Accuracy.roundToNearestEven]
  · rw [h]
    norm_num
  · constructor <;> linarith [h.1, h.2]
  · obtain hbit | hbit := Nat.mod_two_eq_zero_or_one em.mantissa <;> rw [hbit, h] <;>
      push_cast <;> constructor <;> linarith
  · push_cast
    constructor <;> linarith [h.1, h.2]

theorem le_roundedMantissa (em : ExtendedMantissa) : em.mantissa ≤ em.roundedMantissa := by
  rw [ExtendedMantissa.roundedMantissa]
  generalize em.accuracy = acc
  rcases acc with _ | ⟨_ | _ | _⟩ <;> simp [Accuracy.roundToNearestEven]

section Half

variable {num den : Nat} (hden : 0 < den)

include hden

theorem div_lt_half_iff : (num : ℚ) / den < 1 / 2 ↔ 2 * num < den := by
  rw [div_lt_div_iff₀ (Nat.cast_pos.2 hden) two_pos, one_mul, mul_comm]
  exact_mod_cast Iff.rfl

theorem half_lt_div_iff : 1 / 2 < (num : ℚ) / den ↔ den < 2 * num := by
  rw [div_lt_div_iff₀ two_pos (Nat.cast_pos.2 hden), one_mul, mul_comm]
  exact_mod_cast Iff.rfl

theorem div_eq_half_iff : (num : ℚ) / den = 1 / 2 ↔ 2 * num = den := by
  rw [div_eq_div_iff (Nat.cast_ne_zero.2 hden.ne') two_ne_zero, one_mul, mul_comm]
  exact_mod_cast Iff.rfl

end Half

/-- The rest of a division says where the quotient lies. -/
theorem locates_accuracyOfFraction (m : Nat) {num den : Nat} (h : num < den) :
    Locates (ExtendedMantissa.ofMantissaAndAccuracy m (accuracyOfFraction num den))
      (m + num / den) := by
  have hden : 0 < den := Nat.zero_lt_of_lt h
  rw [Locates, accuracy_ofMantissaAndAccuracy, mantissa_ofMantissaAndAccuracy, accuracyOfFraction]
  by_cases hzero : num = 0
  · simp [hzero]
  · rw [if_neg hzero]
    have hone : (num : ℚ) / den < 1 := (div_lt_one (Nat.cast_pos.2 hden)).2 (Nat.cast_lt.2 h)
    have hpos : 0 < (num : ℚ) / den :=
      div_pos (Nat.cast_pos.2 (Nat.pos_of_ne_zero hzero)) (Nat.cast_pos.2 hden)
    obtain hcompare | hcompare | hcompare := lt_trichotomy (2 * num) den
    · rw [compare_lt_iff_lt.2 hcompare]
      have hhalf := (div_lt_half_iff hden).2 hcompare
      exact ⟨by linarith, by linarith⟩
    · rw [compare_eq_iff_eq.2 hcompare]
      show (m : ℚ) + num / den = m + 1 / 2
      rw [(div_eq_half_iff hden).2 hcompare]
    · rw [compare_gt_iff_gt.2 hcompare]
      have hhalf := (half_lt_div_iff hden).2 hcompare
      exact ⟨by linarith, by linarith⟩

/-! ## Rounding to a grid -/

/-- A number is rounded to a multiple of `2 ^ e`, which is a step that 53 bits are enough for. -/
structure RoundsAt (e : ℤ) (y w : ℚ) : Prop where
  multiple : ∃ k : Nat, w = k * 2 ^ e
  near : |w - y| ≤ 2 ^ (e - 1)
  fine : e = -1074 ∨ 2 ^ (e + 52) ≤ y

theorem two_zpow_sub_one (e : ℤ) : (2 : ℚ) ^ e = 2 * 2 ^ (e - 1) := by
  rw [← zpow_one_add₀ two_ne_zero]
  congr 1
  ring

/-- A double that is nearer than half a step is on the grid: one with a finer exponent is too far
below. -/
theorem RoundsAt.le_exponent {e : ℤ} {y w : ℚ} (h : RoundsAt e y w) {m : Nat} {q : ℤ}
    (hm : m < 2 ^ 53) (hq : -1074 ≤ q) (hnear : |m * 2 ^ q - y| < 2 ^ (e - 1)) : e ≤ q := by
  obtain he | he := h.fine
  · exact he ▸ hq
  · by_contra hlt
    have hbelow : (m : ℚ) * 2 ^ q ≤ (2 ^ 53 - 1) * 2 ^ (e - 1) := by
      refine mul_le_mul ?_ (zpow_le_zpow_right₀ one_le_two (by omega)) (zpow_pos two_pos _).le
        (by norm_num)
      have hle : ((m + 1 : Nat) : ℚ) ≤ ((2 ^ 53 : Nat) : ℚ) := Nat.cast_le.2 hm
      push_cast at hle
      linarith
    have hpower : (2 : ℚ) ^ (e + 52) = 2 ^ 53 * 2 ^ (e - 1) := by
      rw [← zpow_natCast, ← zpow_add₀ two_ne_zero]
      congr 1
      push_cast
      ring
    rw [hpower] at he
    have hlow := (abs_lt.1 hnear).1
    linarith

/-- Multiples of a step that are nearer than it are equal. -/
theorem eq_of_abs_sub_lt {k n : Nat} {e : ℤ} (h : |(k : ℚ) * 2 ^ e - n * 2 ^ e| < 2 ^ e) :
    k = n := by
  have hpos : (0 : ℚ) < 2 ^ e := zpow_pos two_pos e
  rw [← sub_mul, abs_mul, abs_of_pos hpos, mul_lt_iff_lt_one_left hpos] at h
  have hunits : |(k : ℤ) - (n : ℤ)| < 1 := by
    rw [← Int.cast_lt (R := ℚ)]
    push_cast
    exact h
  exact Int.natCast_inj.1 (sub_eq_zero.1 (Int.abs_lt_one_iff.1 hunits))

/-- A double that is nearer than half a step is the rounded number. -/
theorem RoundsAt.eq_of_near {e : ℤ} {y w : ℚ} (h : RoundsAt e y w) {m : Nat} {q : ℤ}
    (hm : m < 2 ^ 53) (hq : -1074 ≤ q) (hnear : |m * 2 ^ q - y| < 2 ^ (e - 1)) :
    w = m * 2 ^ q := by
  obtain ⟨d, rfl⟩ := Int.le.dest (h.le_exponent hm hq hnear)
  obtain ⟨k, hk⟩ := h.multiple
  have hgrid : (m : ℚ) * 2 ^ (e + d) = (m * 2 ^ d : Nat) * 2 ^ e := by
    rw [zpow_add₀ two_ne_zero, zpow_natCast]
    push_cast
    ring
  have hdistance : |w - m * 2 ^ (e + d)| < 2 ^ e := by
    have htriangle := abs_sub_le w y (m * 2 ^ (e + d))
    rw [abs_sub_comm y] at htriangle
    rw [two_zpow_sub_one e]
    linarith [h.near]
  rw [hk, hgrid] at hdistance ⊢
  rw [eq_of_abs_sub_lt hdistance]

/-- As `RoundsAt`, to a step that has no more bits than a double, and from halfway to an even
multiple. -/
structure RoundsEven (e : ℤ) (y w : ℚ) : Prop extends RoundsAt e y w where
  least : -1074 ≤ e
  coarse : y < 2 ^ (e + 53)
  even : |w - y| = 2 ^ (e - 1) → ∃ k : Nat, Even k ∧ w = k * 2 ^ e

/-- Of two neighbours that are equally near, a number is rounded to the even one. -/
theorem RoundsEven.eq_of_tie {e : ℤ} {y w : ℚ} (h : RoundsEven e y w) {n : Nat} (hn : Even n)
    (htie : |n * 2 ^ e - y| = 2 ^ (e - 1)) : w = n * 2 ^ e := by
  have hstep := two_zpow_sub_one e
  have htriangle := abs_sub_le w y (n * 2 ^ e)
  rw [abs_sub_comm y, htie] at htriangle
  by_cases hhalf : |w - y| = 2 ^ (e - 1)
  · obtain ⟨k, hk, rfl⟩ := h.even hhalf
    obtain ⟨a, rfl⟩ := hk
    obtain ⟨b, rfl⟩ := hn
    -- even multiples of the step are multiples of its double
    have hdouble (c : Nat) : ((c + c : Nat) : ℚ) * 2 ^ e = c * 2 ^ (e + 1) := by
      rw [zpow_add_one₀ two_ne_zero]
      push_cast
      ring
    rw [hdouble, hdouble] at htriangle ⊢
    have hpos : (0 : ℚ) < 2 ^ e := zpow_pos two_pos e
    rw [eq_of_abs_sub_lt (k := a) (n := b) (e := e + 1)]
    rw [← hdouble a, hhalf, hdouble a] at htriangle
    rw [zpow_add_one₀ two_ne_zero] at htriangle ⊢
    linarith
  · obtain ⟨k, rfl⟩ := h.multiple
    have hlt := lt_of_le_of_ne h.near hhalf
    rw [eq_of_abs_sub_lt (k := k) (n := n) (e := e) (by linarith)]

/-! ## What a double stands for -/

def isNegative : Sign → Bool
  | .negative => true
  | .positive => false

/-- The number that the arithmetic computes with, as the number that the bits stand for. -/
def toBinary : UnpackedFloat → Decimal.Binary
  | .notANumber => .nan
  | .infinity sign => .infinity (isNegative sign)
  | .zero sign => .finite (isNegative sign) 0 (-1074)
  | .finite sign m e _ => .finite (isNegative sign) m e

theorem toNat_unpackMantissa (b : BitVec 64) :
    (@unpackMantissa Format.binary64 b).toNat = b.toNat % 2 ^ 52 := by
  show ((b.extractLsb 51 0).cast _).toNat = _
  rw [BitVec.toNat_cast, BitVec.extractLsb_toNat, Nat.shiftRight_zero]

theorem isNegative_unpackSign (b : BitVec 64) :
    isNegative (Sign.ofBitVec (@unpackSign Format.binary64 b)) = decide (2 ^ 63 ≤ b.toNat) := by
  have hbit : (@unpackSign Format.binary64 b).toNat = b.toNat / 2 ^ 63 % 2 := by
    show ((b.extractLsb 63 63).cast _).toNat = _
    rw [BitVec.toNat_cast, BitVec.extractLsb_toNat, Nat.shiftRight_eq_div_pow]
  have hlt : b.toNat < 2 ^ 64 := b.isLt
  rw [Sign.ofBitVec]
  split
  · rename_i hzero
    rw [hzero] at hbit
    have hbit : 0 = b.toNat / 2 ^ 63 % 2 := hbit
    exact (decide_eq_false (by omega)).symm
  · rename_i hone
    have hne : b.toNat / 2 ^ 63 % 2 ≠ 0 := fun h => hone (BitVec.eq_of_toNat_eq (hbit.trans h))
    exact (decide_eq_true (by omega)).symm

theorem toNat_implicit (mantissa : BitVec 52) :
    (1#1 ++ mantissa).toNat = 2 ^ 52 + mantissa.toNat := by
  rw [BitVec.toNat_append, ← Nat.shiftLeft_add_eq_or_of_lt mantissa.isLt]
  rfl

theorem toBinary_unpack (b : BitVec 64) :
    Decimal.Binary.ofBits b.toNat = toBinary (unpack Format.binary64 b) := by
  have hexponent := toNat_unpackExponent b
  have hmantissa := toNat_unpackMantissa b
  have hsign := isNegative_unpackSign b
  have hleast : Decimal.leastNormal = 2 ^ 52 := by decide
  have hones : @unpackExponent Format.binary64 b = -1#_ ↔ b.toNat / 2 ^ 52 % 2048 = 2047 := by
    rw [← hexponent]
    exact BitVec.toNat_eq
  have hzeros : @unpackExponent Format.binary64 b = 0#_ ↔ b.toNat / 2 ^ 52 % 2048 = 0 := by
    rw [← hexponent]
    exact BitVec.toNat_eq
  have hnone : @unpackMantissa Format.binary64 b = 0#_ ↔ b.toNat % 2 ^ 52 = 0 := by
    rw [← hmantissa]
    exact BitVec.toNat_eq
  simp only [Decimal.Binary.ofBits, unpack, hleast]
  by_cases h1 : b.toNat / 2 ^ 52 % 2048 = 2047
  · rw [if_pos h1, if_pos (hones.2 h1)]
    by_cases h0 : b.toNat % 2 ^ 52 = 0
    · rw [if_pos h0, if_pos (hnone.2 h0), toBinary, hsign]
      rfl
    · rw [if_neg h0, if_neg (mt hnone.1 h0), toBinary]
  · rw [if_neg h1, if_neg (mt hones.1 h1)]
    by_cases h2 : b.toNat / 2 ^ 52 % 2048 = 0
    · rw [if_pos h2, if_pos (hzeros.2 h2)]
      by_cases h0 : b.toNat % 2 ^ 52 = 0
      · rw [dif_pos (hnone.2 h0), toBinary, hsign, h0]
        rfl
      · rw [dif_neg (mt hnone.1 h0), toBinary, hsign, hmantissa, hexponent, h2]
        rfl
    · rw [if_neg h2, if_neg (mt hzeros.1 h2), toBinary, hsign, hexponent, toNat_implicit, hmantissa]
      rfl

theorem ofFloat_eq (x : Float) : Decimal.Binary.ofFloat x = toBinary x.toModel.unpack := by
  obtain ⟨⟨⟨bits⟩, valid⟩⟩ := x
  exact toBinary_unpack bits

/-- A mantissa and an exponent in the form of a double: 53 bits, or the least exponent. -/
structure DoubleForm (m : Nat) (q : ℤ) : Prop where
  mantissa : m < 2 ^ 53
  exponent : -1074 ≤ q
  normal : 2 ^ 52 ≤ m ∨ q = -1074

theorem unpackSign_packComponents {spec : Format} {sign : Sign} {exponent mantissa} :
    Sign.ofBitVec (unpackSign (packComponents spec sign exponent mantissa)) = sign := by
  have hbits : unpackSign (packComponents spec sign exponent mantissa) = sign.toBitVec := by
    refine BitVec.eq_of_getLsbD_eq fun i hi => ?_
    obtain rfl : i = 0 := by omega
    simp [unpackSign, packComponents, BitVec.getLsbD_append, BitVec.getElem_append]
  rw [hbits]
  cases sign <;> rfl

theorem unpack_pack_zero (sign : Sign) :
    unpack Format.binary64 (pack Format.binary64 (.zero sign)) = .zero sign := by
  cases sign <;> rfl

theorem pack_finite (sign : Sign) {m : Nat} {q : ℤ} (hm : 0 < m) (h : DoubleForm m q)
    (hq : q ≤ 971) : pack Format.binary64 (.finite sign m q hm) =
      if 2 ^ 52 ≤ m then
        packComponents Format.binary64 sign (BitVec.ofNat 11 (q + 1075).toNat) (BitVec.ofNat 52 m)
      else packComponents Format.binary64 sign 0#11 (BitVec.ofNat 52 m) := by
  have hlog : m.log2 + 1 = 53 ↔ 2 ^ 52 ≤ m := by
    have hpower := Nat.le_log2 (k := 52) hm.ne'
    have hless := (Nat.log2_lt hm.ne').2 h.mantissa
    omega
  have hpack : pack Format.binary64 (.finite sign m q hm) =
      if 2 ^ 11 ≤ (q + 1023 + 52).toNat + 1 then packedInfinity Format.binary64 sign
      else if m.log2 + 1 = 53 then
        packComponents Format.binary64 sign (BitVec.ofNat 11 (q + 1023 + 52).toNat)
          (BitVec.ofNat 52 m)
      else packComponents Format.binary64 sign 0#11 (BitVec.ofNat 52 m) := rfl
  have hroom : ¬ 2 ^ 11 ≤ (q + 1023 + 52).toNat + 1 := by omega
  rw [hpack, if_neg hroom, add_assoc]
  exact if_congr hlog rfl rfl

/-- A number in the form of a double is packed without loss. -/
theorem unpack_pack_finite (sign : Sign) {m : Nat} {q : ℤ} (hm : 0 < m) (h : DoubleForm m q)
    (hq : q ≤ 971) : unpack Format.binary64 (pack Format.binary64 (.finite sign m q hm)) =
      .finite sign m q hm := by
  have hlt := h.mantissa
  have hleast := h.exponent
  rw [pack_finite sign hm h hq]
  by_cases hbig : 2 ^ 52 ≤ m
  · have hexponent : (BitVec.ofNat 11 (q + 1075).toNat).toNat = (q + 1075).toNat := by
      rw [BitVec.toNat_ofNat, Nat.mod_eq_of_lt (by omega)]
    have hones : BitVec.ofNat 11 (q + 1075).toNat ≠ -1#11 := by
      rw [Ne, BitVec.toNat_eq, hexponent]
      exact (by omega : (q + 1075).toNat ≠ 2047)
    have hzeros : BitVec.ofNat 11 (q + 1075).toNat ≠ 0#11 := by
      rw [Ne, BitVec.toNat_eq, hexponent]
      exact (by omega : (q + 1075).toNat ≠ 0)
    have hmantissa : (1#1 ++ BitVec.ofNat 52 m).toNat = m := by
      rw [toNat_implicit, BitVec.toNat_ofNat]
      omega
    rw [if_pos hbig]
    simp only [unpack, unpackExponent_packComponents, unpackMantissa_packComponents,
      unpackSign_packComponents, if_neg hones, if_neg hzeros, hmantissa, hexponent]
    congr 1
    show ((q + 1075).toNat : ℤ) - (1023 + 52) = q
    omega
  · obtain rfl : q = -1074 := h.normal.resolve_left hbig
    have hmantissa : (BitVec.ofNat 52 m).toNat = m := by
      rw [BitVec.toNat_ofNat, Nat.mod_eq_of_lt (Nat.lt_of_not_le hbig)]
    have hpos : BitVec.ofNat 52 m ≠ 0#52 := by
      rw [Ne, BitVec.toNat_eq, hmantissa]
      exact hm.ne'
    have hones : (0#11 : BitVec 11) ≠ -1#11 := by decide
    rw [if_neg hbig]
    simp only [unpack, unpackExponent_packComponents, unpackMantissa_packComponents,
      unpackSign_packComponents, if_neg hones, if_true, dif_neg hpos, hmantissa]
    rfl

theorem doubleForm_ofBits {bits : Nat} {negative : Bool} {m : Nat} {q : ℤ}
    (h : Decimal.Binary.ofBits bits = .finite negative m q) : DoubleForm m q ∧ q ≤ 971 := by
  have hleast : Decimal.leastNormal = 2 ^ 52 := by decide
  have hfraction : bits % 2 ^ 52 < 2 ^ 52 := Nat.mod_lt _ (by decide)
  simp only [Decimal.Binary.ofBits, hleast] at h
  split at h
  · split at h <;> cases h
  · split at h
    · cases h
      exact ⟨⟨by omega, le_rfl, .inr rfl⟩, by omega⟩
    · cases h
      exact ⟨⟨by omega, by omega, .inl (by omega)⟩, by omega⟩

theorem doubleForm_ofFloat {x : Float} {negative : Bool} {m : Nat} {q : ℤ}
    (h : Decimal.Binary.ofFloat x = .finite negative m q) : DoubleForm m q ∧ q ≤ 971 :=
  doubleForm_ofBits h

theorem isNegative_neg (sign : Sign) : isNegative (-sign) = !isNegative sign := by
  cases sign <;> rfl

theorem ofFloat_neg {x : Float} {negative : Bool} {m : Nat} {q : ℤ}
    (h : Decimal.Binary.ofFloat x = .finite negative m q) :
    Decimal.Binary.ofFloat (-x) = .finite (!negative) m q := by
  have hneg : Decimal.Binary.ofFloat (-x) =
      toBinary (unpack Format.binary64 (pack Format.binary64 x.toModel.unpack.neg)) :=
    ofFloat_eq (-x)
  have hform := doubleForm_ofFloat h
  rw [ofFloat_eq] at h
  rw [hneg]
  cases hx : x.toModel.unpack with
  | notANumber => rw [hx] at h; cases h
  | infinity sign => rw [hx] at h; cases h
  | zero sign =>
    rw [hx] at h
    cases h
    rw [neg, unpack_pack_zero, toBinary, isNegative_neg]
  | finite sign m' q' hm' =>
    rw [hx] at h
    cases h
    rw [neg, unpack_pack_finite _ _ hform.1 hform.2, toBinary, isNegative_neg]

/-! ## Rounding -/

/-- The shift after a carry loses nothing. -/
theorem exists_carry {r : Nat} {e : ℤ} (hr : r ≤ 2 ^ 53) (he : -1074 ≤ e)
    (hnormal : 2 ^ 52 ≤ r ∨ e = -1074) : ∃ m q,
    shiftToTargetExponent Format.binary64 r e .exact =
      (ExtendedMantissa.ofMantissaAndAccuracy m .exact, q) ∧
      DoubleForm m q ∧ (m : ℚ) * 2 ^ q = r * 2 ^ e := by
  have htarget := targetExponent_eq r e
  rw [shiftToTargetExponent_eq]
  obtain hlt | rfl := lt_or_eq_of_le hr
  · have hdropped : droppedBits r e = 0 := by
      have hlog : r.log2 ≤ 52 := by
        by_cases hzero : r = 0
        · simp [hzero]
        · exact Nat.le_of_lt_succ ((Nat.log2_lt hzero).2 hlt)
      unfold droppedBits
      omega
    rw [hdropped]
    refine ⟨r, e + (0 : Nat), rfl, ?_, ?_⟩
    · rw [Nat.cast_zero, add_zero]
      exact ⟨hlt, he, hnormal⟩
    · rw [Nat.cast_zero, add_zero]
  · have hdropped : droppedBits (2 ^ 53) e = 1 := by
      rw [Nat.log2_two_pow] at htarget
      unfold droppedBits
      omega
    rw [hdropped]
    have hshift := shiftRight_exact (2 ^ 52) 1
    refine ⟨2 ^ 52, e + (1 : Nat), Prod.ext hshift rfl, ⟨by omega, by omega, .inl le_rfl⟩, ?_⟩
    rw [zpow_add₀ two_ne_zero]
    push_cast
    ring

/-- A mantissa with a bit for each place of a double keeps 53 bits when others are dropped. -/
theorem le_div_droppedBits {m : Nat} {e : ℤ} (he : e ≤ max (m.log2 + e - 52) (-1074))
    (hleast : e + droppedBits m e ≠ -1074) : 2 ^ 52 ≤ m / 2 ^ droppedBits m e := by
  have htarget := targetExponent_eq m e
  have hlog : m.log2 = 52 + droppedBits m e := by
    unfold droppedBits at *
    omega
  have hm : m ≠ 0 := by
    rintro rfl
    rw [Nat.log2_zero] at hlog
    omega
  rw [Nat.le_div_iff_mul_le (Nat.two_pow_pos _), ← Nat.pow_add, ← hlog]
  exact Nat.log2_self_le hm

/-- A number that lies in the unit above a mantissa is rounded to that grid. -/
theorem roundsEven_of_locates {em : ExtendedMantissa} {e : ℤ} {y : ℚ}
    (h : Locates em (y / 2 ^ e)) (hleast : -1074 ≤ e) (hlt : em.mantissa < 2 ^ 53)
    (hnormal : e = -1074 ∨ 2 ^ 52 ≤ em.mantissa) :
    RoundsEven e y (em.roundedMantissa * 2 ^ e) := by
  have hpos : (0 : ℚ) < 2 ^ e := zpow_pos two_pos e
  have hdistance : |(em.roundedMantissa : ℚ) * 2 ^ e - y| =
      |(em.roundedMantissa : ℚ) - y / 2 ^ e| * 2 ^ e := by
    rw [← abs_of_pos hpos, ← abs_mul, abs_of_pos hpos, sub_mul, div_mul_cancel₀ _ hpos.ne']
  have hstep := two_zpow_sub_one e
  refine ⟨⟨⟨_, rfl⟩, ?_, hnormal.imp_right fun hbig => ?_⟩, hleast, ?_, fun hhalf => ?_⟩
  · have hscaled := mul_le_mul_of_nonneg_right h.abs_sub_le hpos.le
    rw [hdistance]
    linarith
  · have hc := h.le
    rw [le_div_iff₀ hpos] at hc
    refine le_trans ?_ hc
    rw [add_comm, zpow_add₀ two_ne_zero]
    refine mul_le_mul_of_nonneg_right ?_ hpos.le
    exact_mod_cast hbig
  · have hc := h.lt_add_one
    rw [div_lt_iff₀ hpos] at hc
    refine hc.trans_le ?_
    rw [add_comm e, zpow_add₀ two_ne_zero]
    refine mul_le_mul_of_nonneg_right ?_ hpos.le
    exact_mod_cast hlt
  · refine ⟨_, h.even_of_half ?_, rfl⟩
    rw [hdistance] at hhalf
    refine mul_right_cancel₀ hpos.ne' ?_
    linarith

/-- A number that a mantissa is cut off from is rounded, if the mantissa has all the bits that a
double has room for. -/
theorem toBinary_roundWithAccuracy (sign : Sign) {m : Nat} {e : ℤ} {acc : Accuracy} {y : ℚ}
    (he : e ≤ max (m.log2 + e - 52) (-1074))
    (hy : Locates (ExtendedMantissa.ofMantissaAndAccuracy m acc) (y / 2 ^ e)) :
    ∃ m' q e', toBinary (roundWithAccuracy Format.binary64 sign m e acc) =
      .finite (isNegative sign) m' q ∧ DoubleForm m' q ∧ RoundsEven e' y (m' * 2 ^ q) := by
  have htarget := targetExponent_eq m e
  have hlow := le_div_droppedBits he
  have hhigh := div_droppedBits_lt m e
  have hleast : -1074 ≤ e + droppedBits m e := by
    unfold droppedBits
    omega
  have hlocates := hy.shiftRight (droppedBits m e)
  rw [div_div, ← zpow_natCast, ← zpow_add₀ two_ne_zero] at hlocates
  -- the mantissa after the bits are dropped, and after it is rounded
  have hmantissa := mantissa_shiftRight (ExtendedMantissa.ofMantissaAndAccuracy m acc)
    (droppedBits m e)
  rw [mantissa_ofMantissaAndAccuracy] at hmantissa
  rw [roundWithAccuracy, shiftToTargetExponent_eq]
  generalize ExtendedMantissa.ofMantissaAndAccuracy m acc >>> droppedBits m e = em
    at hlocates hmantissa ⊢
  generalize e + (droppedBits m e : ℤ) = e₁ at *
  rw [← hmantissa] at hlow hhigh
  have hround := roundedMantissa_le em
  have hkeep := le_roundedMantissa em
  obtain ⟨m', q, hshift, hform, hvalue⟩ := exists_carry (r := em.roundedMantissa) (e := e₁)
    (by omega) hleast (by omega)
  have hrounds : RoundsEven e₁ y (m' * 2 ^ q) :=
    hvalue ▸ roundsEven_of_locates hlocates hleast (by omega) (by omega)
  simp only [hshift, mantissa_ofMantissaAndAccuracy]
  by_cases hzero : m' = 0
  · subst hzero
    refine ⟨0, -1074, e₁, by rw [dif_pos rfl, toBinary], ⟨by decide, le_rfl, .inr rfl⟩, ?_⟩
    rw [Nat.cast_zero, zero_mul] at hrounds ⊢
    exact hrounds
  · exact ⟨m', q, e₁, by rw [dif_neg hzero, toBinary], hform, hrounds⟩

end PenaltySimplex
