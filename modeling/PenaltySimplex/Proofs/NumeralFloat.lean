import PenaltySimplex.Proofs.BinaryValue
import PenaltySimplex.Proofs.NearestFloat

/-!
# PenaltySimplex.Proofs.NumeralFloat

What a numeral reads as: the double that its number is rounded to, for every number up to the
largest double (`ofFloat_ofScientific`).

Digits of 53 bits and powers of ten that are doubles themselves are multiplied or divided as
doubles, the power being taken from a table (`exists_powerOfTen`). Other numerals are multiplied or
divided exactly and rounded once. A product or quotient of doubles is rounded in the same way
(`toBinary_mul`, `toBinary_div`), so both roads lead to the same double.
-/

namespace PenaltySimplex

open Float.Model (Format UnpackedFloat totalExponent)
open Float.Model.UnpackedFloat

/-- A number up to the largest double is not rounded past it. -/
theorem RoundsAt.exponent_le {e : ℤ} {y : ℚ} {m : Nat} {q : ℤ} (h : RoundsAt e y (m * 2 ^ q))
    (hform : DoubleForm m q) (hy : y ≤ greatest) : q ≤ 971 := by
  by_contra hover
  have hm : (2 : ℚ) ^ (52 : ℤ) ≤ m := by
    exact_mod_cast hform.normal.resolve_right (by omega)
  have hvalue : (2 : ℚ) ^ (1024 : ℤ) ≤ m * 2 ^ q :=
    calc (2 : ℚ) ^ (1024 : ℤ) = 2 ^ (52 : ℤ) * 2 ^ (972 : ℤ) := by
          rw [← zpow_add₀ two_ne_zero]
          rfl
      _ ≤ m * 2 ^ q := mul_le_mul hm (zpow_le_zpow_right₀ one_le_two (by omega))
          (zpow_pos two_pos _).le (Nat.cast_nonneg m)
  have he : e ≤ 971 := by
    obtain rfl | hfine := h.fine
    · decide
    · have hlt := (hfine.trans hy).trans_lt greatest_lt
      rw [zpow_lt_zpow_iff_right₀ one_lt_two] at hlt
      omega
  have hstep : (2 : ℚ) ^ (e - 1) ≤ 2 ^ (970 : ℤ) := zpow_le_zpow_right₀ one_le_two (by omega)
  have hgap : (2 : ℚ) ^ (1024 : ℤ) - greatest = 2 * 2 ^ (970 : ℤ) := by
    have htop : (2 : ℚ) ^ (1024 : ℤ) = 2 ^ 53 * 2 ^ (971 : ℤ) := by
      rw [← zpow_natCast, ← zpow_add₀ two_ne_zero]
      rfl
    have hhalf := two_zpow_sub_one 971
    rw [htop, greatest, ← sub_mul, sub_sub_cancel, one_mul]
    exact hhalf
  have hpos : (0 : ℚ) < 2 ^ (970 : ℤ) := zpow_pos two_pos _
  have hnear := (abs_le.1 h.near).2
  generalize (2 : ℚ) ^ (970 : ℤ) = gap at *
  generalize (2 : ℚ) ^ (1024 : ℤ) = top at *
  linarith

/-! ## Products, quotients and natural numbers -/

theorem eq_finite_of_toBinary {u : UnpackedFloat} {negative : Bool} {m : Nat} {q : ℤ}
    (hu : toBinary u = .finite negative m q) (hm : 0 < m) :
    ∃ sign, isNegative sign = negative ∧ u = .finite sign m q hm := by
  cases u with
  | notANumber => cases hu
  | infinity sign => cases hu
  | zero sign =>
    cases hu
    exact absurd hm (Nat.lt_irrefl 0)
  | finite sign m' q' hm' =>
    cases hu
    exact ⟨sign, rfl, rfl⟩

/-- A product of doubles is rounded, if the mantissas leave no bit of a double free. -/
theorem toBinary_mul (s₁ s₂ : Sign) {m₁ m₂ : Nat} (e₁ e₂ : ℤ) (h₁ : 0 < m₁) (h₂ : 0 < m₂)
    (hbits : 2 ^ 52 ≤ m₁ * m₂) :
    ∃ m q e, toBinary (mul Format.binary64 (.finite s₁ m₁ e₁ h₁) (.finite s₂ m₂ e₂ h₂)) =
      .finite (isNegative (s₁ * s₂)) m q ∧ DoubleForm m q ∧
      RoundsEven e (m₁ * 2 ^ e₁ * (m₂ * 2 ^ e₂)) (m * 2 ^ q) := by
  refine toBinary_roundWithAccuracy (s₁ * s₂) (e := e₁ + e₂) ?_ ?_
  · have hlog := (Nat.le_log2 (k := 52) (by omega)).2 hbits
    omega
  · show (m₁ * 2 ^ e₁ * (m₂ * 2 ^ e₂) : ℚ) / 2 ^ (e₁ + e₂) = (m₁ * m₂ : Nat)
    rw [div_eq_iff (zpow_pos two_pos _).ne', zpow_add₀ two_ne_zero]
    push_cast
    ring

theorem locates_div {m₁ m₂ k : Nat} {e₁ e₂ : ℤ} (h₂ : 0 < m₂) :
    Locates (ExtendedMantissa.ofMantissaAndAccuracy ((m₁ <<< k) / m₂)
      (accuracyOfFraction ((m₁ <<< k) % m₂) m₂))
      ((m₁ * 2 ^ e₁ / (m₂ * 2 ^ e₂) : ℚ) / 2 ^ (e₁ - e₂ - k)) := by
  have hm₂ : (m₂ : ℚ) ≠ 0 := Nat.cast_ne_zero.2 h₂.ne'
  have hvalue : (m₁ * 2 ^ e₁ / (m₂ * 2 ^ e₂) : ℚ) / 2 ^ (e₁ - e₂ - k) =
      ((m₁ <<< k) / m₂ : Nat) + ((m₁ <<< k) % m₂ : Nat) / m₂ := by
    have hshift : ((m₁ <<< k : Nat) : ℚ) = m₁ * 2 ^ k := by
      rw [Nat.shiftLeft_eq]
      push_cast
      rfl
    have hdivide : (((m₁ <<< k) / m₂ : Nat) : ℚ) * m₂ + ((m₁ <<< k) % m₂ : Nat) = m₁ * 2 ^ k := by
      rw [← hshift]
      exact_mod_cast Nat.div_add_mod' _ _
    rw [zpow_sub₀ two_ne_zero, zpow_sub₀ two_ne_zero, zpow_natCast]
    field_simp
    linarith
  rw [hvalue]
  exact locates_accuracyOfFraction _ (Nat.mod_lt _ h₂)

/-- A quotient of doubles is rounded. -/
theorem toBinary_div (s₁ s₂ : Sign) {m₁ m₂ : Nat} (e₁ e₂ : ℤ) (h₁ : 0 < m₁) (h₂ : 0 < m₂) :
    ∃ m q e, toBinary (div Format.binary64 (.finite s₁ m₁ e₁ h₁) (.finite s₂ m₂ e₂ h₂)) =
      .finite (isNegative (s₁ / s₂)) m q ∧ DoubleForm m q ∧
      RoundsEven e (m₁ * 2 ^ e₁ / (m₂ * 2 ^ e₂)) (m * 2 ^ q) := by
  have htarget : Format.binary64.targetExponent (totalExponent m₁ e₁ - totalExponent m₂ e₂) =
      max ((m₁.log2 : ℤ) + 1 + e₁ - (m₂.log2 + 1 + e₂) - 53) (-1074) := rfl
  simp only [div, divCore]
  generalize Format.binary64.targetExponent (totalExponent m₁ e₁ - totalExponent m₂ e₂) = target
    at htarget ⊢
  obtain ⟨k, hk⟩ : ∃ k : Nat, (e₁ - e₂ - min (e₁ - e₂) target).toNat = k := ⟨_, rfl⟩
  have hexponent : min (e₁ - e₂) target = e₁ - e₂ - k := by omega
  rw [hk, hexponent]
  refine toBinary_roundWithAccuracy _ ?_ (locates_div h₂)
  by_cases hleast : e₁ - e₂ - k ≤ -1074
  · exact hleast.trans (le_max_right _ _)
  · -- the quotient has 53 bits
    have hshift : m₂.log2 + 1 + 52 ≤ m₁.log2 + k := by omega
    have hbits : 2 ^ 52 ≤ (m₁ <<< k) / m₂ := by
      rw [Nat.le_div_iff_mul_le h₂, Nat.shiftLeft_eq]
      calc 2 ^ 52 * m₂ ≤ 2 ^ 52 * 2 ^ (m₂.log2 + 1) :=
            Nat.mul_le_mul_left _ Nat.lt_log2_self.le
        _ = 2 ^ (m₂.log2 + 1 + 52) := by rw [← Nat.pow_add, Nat.add_comm]
        _ ≤ 2 ^ (m₁.log2 + k) := Nat.pow_le_pow_right two_pos hshift
        _ = 2 ^ m₁.log2 * 2 ^ k := Nat.pow_add _ _ _
        _ ≤ m₁ * 2 ^ k := Nat.mul_le_mul_right _ (Nat.log2_self_le h₁.ne')
    have hlog := (Nat.le_log2 (k := 52) (by omega)).2 hbits
    omega

/-- A natural number of 53 bits is not rounded. -/
theorem toBinary_ofNat {n : Nat} (hn : n < 2 ^ 53) : ∃ m q,
    toBinary (UnpackedFloat.ofNat Format.binary64 n) = .finite false m q ∧ DoubleForm m q ∧
      q ≤ 971 ∧ (m : ℚ) * 2 ^ q = n := by
  unfold UnpackedFloat.ofNat UnpackedFloat.ofInt UnpackedFloat.normalize
  by_cases hzero : n = 0
  · subst hzero
    exact ⟨0, -1074, rfl, ⟨by decide, le_rfl, .inr rfl⟩, by decide, by simp⟩
  · have htarget := targetExponent_eq n 0
    have hlog := (Nat.log2_lt hzero).2 hn
    rw [Int.compare_eq_gt.2 (by omega)]
    simp only [UnpackedFloat.round, decreaseExponent, Int.toNat_natCast]
    obtain ⟨k, hk⟩ : ∃ k : Nat,
        (0 - Format.binary64.targetExponent (totalExponent n 0)).toNat = k := ⟨_, rfl⟩
    have hbits : 2 ^ 52 ≤ n <<< k := by
      rw [Nat.shiftLeft_eq]
      calc 2 ^ 52 = 2 ^ n.log2 * 2 ^ k := by rw [← Nat.pow_add]; congr 1; omega
        _ ≤ n * 2 ^ k := Nat.mul_le_mul_right _ (Nat.log2_self_le hzero)
    have hlong := (Nat.le_log2 (k := 52) (by omega)).2 hbits
    have hlocates : Locates (ExtendedMantissa.ofMantissaAndAccuracy (n <<< k) .exact)
        ((n : ℚ) / 2 ^ ((0 : ℤ) - k)) := by
      show (n : ℚ) / 2 ^ ((0 : ℤ) - k) = (n <<< k : Nat)
      have hshift := cast_shiftLeft n k 0
      rw [zpow_zero, mul_one] at hshift
      rw [div_eq_iff (zpow_pos two_pos _).ne', hshift]
    rw [hk]
    obtain ⟨m, q, e, hbinary, hform, hrounds⟩ :=
      toBinary_roundWithAccuracy .positive (by omega) hlocates
    have hle := le_greatest (e := 0) hn (by decide)
    rw [zpow_zero, mul_one] at hle
    refine ⟨m, q, hbinary, hform, hrounds.exponent_le hform hle, ?_⟩
    have hexact : |(n : ℚ) * 2 ^ (0 : ℤ) - n| < 2 ^ (e - 1) := by
      rw [zpow_zero, mul_one, sub_self, abs_zero]
      exact zpow_pos two_pos _
    rw [hrounds.eq_of_near hn (by omega) hexact, zpow_zero, mul_one]

/-! ## Numerals -/

/-- A number in the form of a double that is packed is that double. -/
theorem toBinary_unpack_pack {u : UnpackedFloat} {negative : Bool} {m : Nat} {q : ℤ}
    (hu : toBinary u = .finite negative m q) (hform : DoubleForm m q) (hq : q ≤ 971) :
    toBinary (unpack Format.binary64 (pack Format.binary64 u)) = .finite negative m q := by
  cases u with
  | notANumber => cases hu
  | infinity sign => cases hu
  | zero sign => rwa [unpack_pack_zero]
  | finite sign m' q' hm' =>
    cases hu
    rw [unpack_pack_finite _ _ hform hq]
    rfl

/-- A double with all its bits that stands for a natural number. -/
def isNormalNatural (n : Nat) : Decimal.Binary → Bool
  | .finite false m q =>
    decide (2 ^ 52 ≤ m) && (Decimal.Binary.finite false m q).natural? == some n
  | _ => false

theorem ofFloat_ofModel_pack {u : UnpackedFloat} {negative : Bool} {m : Nat} {q : ℤ}
    (hu : toBinary u = .finite negative m q) (hform : DoubleForm m q) (hq : q ≤ 971) :
    Decimal.Binary.ofFloat (.ofModel (.pack u)) = .finite negative m q :=
  (ofFloat_eq _).trans (toBinary_unpack_pack hu hform hq)

theorem isNormalNatural_table : ∀ k : Fin Float.exactlyRepresentablePowersOfTen.size,
    isNormalNatural (10 ^ k.val) (Decimal.Binary.ofFloat
      Float.exactlyRepresentablePowersOfTen[k]) = true := by
  decide +kernel

theorem exists_of_isNormalNatural {n : Nat} {b : Decimal.Binary} (h : isNormalNatural n b = true) :
    ∃ m q, b = .finite false m q ∧ 2 ^ 52 ≤ m ∧ (m : ℚ) * 2 ^ q = n := by
  unfold isNormalNatural at h
  split at h
  · rename_i m q
    rw [Bool.and_eq_true, decide_eq_true_eq, beq_iff_eq] at h
    exact ⟨m, q, rfl, h.1, Decimal.Binary.natural?_positive.1 h.2⟩
  · cases h

/-- The table of the powers of ten that are doubles. -/
theorem exists_powerOfTen {k : Nat} (hk : k < Float.exactlyRepresentablePowersOfTen.size) :
    ∃ m q, toBinary Float.exactlyRepresentablePowersOfTen[k].toModel.unpack = .finite false m q ∧
      2 ^ 52 ≤ m ∧ (m : ℚ) * 2 ^ q = 10 ^ k := by
  obtain ⟨m, q, hbinary, hm, hvalue⟩ := exists_of_isNormalNatural (isNormalNatural_table ⟨k, hk⟩)
  refine ⟨m, q, (ofFloat_eq _).symm.trans hbinary, hm, ?_⟩
  rw [hvalue]
  push_cast
  rfl

/-- A natural number of 53 bits is a double. -/
theorem exists_unpack_toFloat {n : Nat} (hpos : 0 < n) (hn : n < 2 ^ 53) :
    ∃ m q, ∃ hm : 0 < m, n.toUInt64.toFloat.toModel.unpack = .finite .positive m q hm ∧
      (m : ℚ) * 2 ^ q = n := by
  have hword : n.toUInt64.toNat = n := Nat.mod_eq_of_lt (hn.trans (by decide))
  obtain ⟨m, q, hbinary, hform, hq, hvalue⟩ := toBinary_ofNat hn
  have hunpack := toBinary_unpack_pack hbinary hform hq
  have hm : 0 < m := by
    refine Nat.pos_of_ne_zero ?_
    rintro rfl
    rw [Nat.cast_zero, zero_mul] at hvalue
    exact hpos.ne (Nat.cast_injective hvalue)
  obtain ⟨sign, hsign, hu⟩ := eq_finite_of_toBinary hunpack hm
  cases sign with
  | negative => cases hsign
  | positive =>
    refine ⟨m, q, hm, ?_, hvalue⟩
    rw [← hu]
    conv_rhs => rw [← hword]
    rfl

/-- Digits and a power of ten that are doubles are multiplied or divided. -/
theorem exists_unpacked_small {n k : Nat} (hpos : 0 < n) (hn : n < 2 ^ 53)
    (hk : k < Float.exactlyRepresentablePowersOfTen.size) (negative : Bool) : ∃ u m q e,
    (if negative then n.toUInt64.toFloat / Float.exactlyRepresentablePowersOfTen[k]
      else n.toUInt64.toFloat * Float.exactlyRepresentablePowersOfTen[k]) = .ofModel (.pack u) ∧
      toBinary u = .finite false m q ∧ DoubleForm m q ∧
      RoundsEven e (n * 10 ^ (if negative then -(k : ℤ) else k)) (m * 2 ^ q) := by
  obtain ⟨m₁, q₁, h₁, hunpack₁, hvalue₁⟩ := exists_unpack_toFloat hpos hn
  obtain ⟨m₂, q₂, hbinary₂, hm₂, hvalue₂⟩ := exists_powerOfTen hk
  have h₂ : 0 < m₂ := Nat.lt_of_lt_of_le (by decide) hm₂
  obtain ⟨sign, hsign, hunpack₂⟩ := eq_finite_of_toBinary hbinary₂ h₂
  generalize Float.exactlyRepresentablePowersOfTen[k] = x at hunpack₂ ⊢
  cases sign with
  | negative => cases hsign
  | positive =>
    cases negative with
    | true =>
      obtain ⟨m, q, e, hbinary, hform, hrounds⟩ := toBinary_div .positive .positive q₁ q₂ h₁ h₂
      refine ⟨_, m, q, e, ?_, hbinary, hform, ?_⟩
      · rw [← hunpack₁, ← hunpack₂]
        rfl
      · rw [hvalue₁, hvalue₂] at hrounds
        rwa [if_pos rfl, zpow_neg, zpow_natCast, ← div_eq_mul_inv]
    | false =>
      obtain ⟨m, q, e, hbinary, hform, hrounds⟩ := toBinary_mul .positive .positive q₁ q₂ h₁ h₂
        (Nat.le_trans hm₂ (Nat.le_mul_of_pos_left _ h₁))
      refine ⟨_, m, q, e, ?_, hbinary, hform, ?_⟩
      · rw [← hunpack₁, ← hunpack₂]
        rfl
      · rw [hvalue₁, hvalue₂] at hrounds
        rwa [if_neg Bool.false_ne_true, zpow_natCast]

/-- A number below half the least double is rounded to zero. -/
theorem roundsEven_zero {y : ℚ} (h₀ : 0 ≤ y) (h : y ≤ 2 ^ (-1075 : ℤ)) :
    RoundsEven (-1074) y 0 where
  multiple := ⟨0, by rw [Nat.cast_zero, zero_mul]⟩
  near := by
    rw [zero_sub, abs_neg, abs_of_nonneg h₀]
    exact h
  fine := .inl rfl
  least := le_rfl
  coarse := h.trans_lt (zpow_lt_zpow_right₀ one_lt_two (by decide))
  even _ := ⟨0, Even.zero, by rw [Nat.cast_zero, zero_mul]⟩

theorem two_zpow_le_ten_zpow {e : ℤ} (he : 0 ≤ e) : (2 : ℚ) ^ e ≤ 10 ^ e :=
  zpow_le_zpow_left₀ he (by norm_num) (by norm_num)

theorem ten_zpow_le_two_zpow {e : ℤ} (he : e ≤ 0) : (10 : ℚ) ^ e ≤ 2 ^ e := by
  have hinverse := two_zpow_le_ten_zpow (neg_nonneg.2 he)
  rw [zpow_neg, zpow_neg] at hinverse
  exact (inv_le_inv₀ (zpow_pos two_pos e) (zpow_pos (by norm_num) e)).1 hinverse

/-- Numbers with a large exponent of ten are larger than every double. -/
theorem exponent_le_of_le_greatest {n : Nat} {e : ℤ} (hpos : 0 < n)
    (hle : (n : ℚ) * 10 ^ e ≤ greatest) : e ≤ 2048 := by
  by_contra hover
  have hn : (1 : ℚ) ≤ n := Nat.one_le_cast.2 hpos
  have hpower : (2 : ℚ) ^ (1024 : ℤ) ≤ n * 10 ^ e :=
    calc (2 : ℚ) ^ (1024 : ℤ) ≤ 2 ^ e := zpow_le_zpow_right₀ one_le_two (by omega)
      _ ≤ 10 ^ e := two_zpow_le_ten_zpow (by omega)
      _ ≤ n * 10 ^ e := le_mul_of_one_le_left (zpow_pos (by norm_num) e).le hn
  exact absurd (hpower.trans hle) (not_le.2 greatest_lt)

/-- Numbers with a small exponent of ten are smaller than half the least double. -/
theorem le_of_exponent_lt {n : Nat} {e : ℤ} (he : e < -(2048 + (n.log2 : ℤ))) :
    (n : ℚ) * 10 ^ e ≤ 2 ^ (-1075 : ℤ) := by
  have hn : (n : ℚ) ≤ 2 ^ ((n.log2 : ℤ) + 1) := by exact_mod_cast (Nat.lt_log2_self (n := n)).le
  calc (n : ℚ) * 10 ^ e ≤ 2 ^ ((n.log2 : ℤ) + 1) * 2 ^ e :=
        mul_le_mul hn (ten_zpow_le_two_zpow (by omega)) (zpow_pos (by norm_num) e).le
          (zpow_pos two_pos _).le
    _ = 2 ^ ((n.log2 : ℤ) + 1 + e) := (zpow_add₀ two_ne_zero _ _).symm
    _ ≤ 2 ^ (-1075 : ℤ) := zpow_le_zpow_right₀ one_le_two (by omega)

/-- Other digits and powers of ten are multiplied or divided exactly and rounded once. -/
theorem toBinary_ofScientific {n : Nat} {e : ℤ} (hpos : 0 < n)
    (hle : (n : ℚ) * 10 ^ e ≤ greatest) : ∃ m q g,
    toBinary (UnpackedFloat.ofScientific Format.binary64 n e) = .finite false m q ∧
      DoubleForm m q ∧ RoundsEven g (n * 10 ^ e) (m * 2 ^ q) := by
  have hmost : ¬ e > 2 ^ Format.binary64.exponentBits :=
    not_lt.2 (exponent_le_of_le_greatest hpos hle)
  unfold UnpackedFloat.ofScientific
  rw [dif_neg hpos.ne', if_neg hmost]
  split
  · rename_i hsmall
    refine ⟨0, -1074, -1074, rfl, ⟨by decide, le_rfl, .inr rfl⟩, ?_⟩
    rw [Nat.cast_zero, zero_mul]
    exact roundsEven_zero (by positivity) (le_of_exponent_lt hsmall)
  · split
    · rename_i hnonneg
      have hlong : 2 ^ 53 ≤ n <<< 53 := by
        rw [Nat.shiftLeft_eq]
        exact Nat.le_mul_of_pos_left _ hpos
      have hpower : 0 < 10 ^ e.toNat := Nat.pow_pos (by decide)
      obtain ⟨m, q, g, hbinary, hform, hrounds⟩ := toBinary_mul .positive .positive (-53) 0
        (Nat.lt_of_lt_of_le (by decide) hlong) hpower
        (Nat.le_trans (Nat.le_trans (by decide) hlong) (Nat.le_mul_of_pos_right _ hpower))
      refine ⟨m, q, g, hbinary, hform, ?_⟩
      have hshift := cast_shiftLeft n 53 0
      rw [zpow_zero, mul_one, zero_sub] at hshift
      have hpush : ((53 : Nat) : ℤ) = 53 := rfl
      rw [hpush] at hshift
      rw [hshift, zpow_zero, mul_one] at hrounds
      rw [← Int.toNat_of_nonneg hnonneg, zpow_natCast]
      exact_mod_cast hrounds
    · rename_i hneg
      have hpower : 0 < 10 ^ (-e).toNat := Nat.pow_pos (by decide)
      obtain ⟨m, q, g, hbinary, hform, hrounds⟩ :=
        toBinary_div .positive .positive 0 0 hpos hpower
      refine ⟨m, q, g, hbinary, hform, ?_⟩
      rw [zpow_zero, mul_one, mul_one] at hrounds
      have hexponent : e = -((-e).toNat : ℤ) := by omega
      rw [hexponent, zpow_neg, zpow_natCast, ← div_eq_mul_inv]
      exact_mod_cast hrounds

theorem ofFloat_ofScientific_zero (negative : Bool) (k : Nat) :
    Decimal.Binary.ofFloat (Float.ofScientific 0 negative k) = .finite false 0 (-1074) := by
  by_cases hk : k ≤ 22
  · have htable : ∀ negative, ∀ k : Fin 23,
        Decimal.Binary.ofFloat (Float.ofScientific 0 negative k) = .finite false 0 (-1074) := by
      decide +kernel
    exact htable negative ⟨k, by omega⟩
  · have hslow (e : ℤ) : Decimal.Binary.ofFloat (.ofModel (Float.Model.ofScientific 0 e)) =
        .finite false 0 (-1074) := by
      show Decimal.Binary.ofFloat (.ofModel (.pack (UnpackedFloat.ofScientific _ 0 e))) = _
      rw [UnpackedFloat.ofScientific, dif_pos rfl]
      exact ofFloat_ofModel_pack rfl ⟨by decide, le_rfl, .inr rfl⟩ (by decide)
    unfold Float.ofScientific
    rw [dif_neg (fun h => hk h.2)]
    exact hslow _

/-- A numeral for a number up to the largest double reads as the double that the number is rounded
to. -/
theorem ofFloat_ofScientific {n : Nat} {e : ℤ} (hle : (n : ℚ) * 10 ^ e ≤ greatest) : ∃ m q g,
    Decimal.Binary.ofFloat (Float.ofScientific n (e < 0) e.natAbs) = .finite false m q ∧
      DoubleForm m q ∧ RoundsEven g (n * 10 ^ e) (m * 2 ^ q) := by
  by_cases hzero : n = 0
  · subst hzero
    refine ⟨0, -1074, -1074, ofFloat_ofScientific_zero _ _, ⟨by decide, le_rfl, .inr rfl⟩, ?_⟩
    rw [Nat.cast_zero, zero_mul, zero_mul]
    exact roundsEven_zero le_rfl (zpow_pos two_pos _).le
  · have hpos := Nat.pos_of_ne_zero hzero
    have hexponent : (if (decide (e < 0)) then -(e.natAbs : ℤ) else e.natAbs) = e := by
      by_cases he : e < 0
      · rw [if_pos (decide_eq_true he)]
        omega
      · rw [if_neg (by simpa using he)]
        omega
    obtain ⟨u, m, q, g, hfloat, hbinary, hform, hrounds⟩ : ∃ u m q g,
        Float.ofScientific n (e < 0) e.natAbs = .ofModel (.pack u) ∧
          toBinary u = .finite false m q ∧ DoubleForm m q ∧
          RoundsEven g (n * 10 ^ e) (m * 2 ^ q) := by
      unfold Float.ofScientific
      split
      · rename_i hsmall
        have hfast := exists_unpacked_small hpos hsmall.1 (by
          show e.natAbs < 23
          omega) (e < 0)
        rwa [hexponent] at hfast
      · obtain ⟨m, q, g, hbinary, hform, hrounds⟩ := toBinary_ofScientific hpos hle
        refine ⟨_, m, q, g, ?_, hbinary, hform, hrounds⟩
        have hnumber : (if decide (e < 0) then Int.negOfNat e.natAbs else .ofNat e.natAbs) = e := by
          rw [Int.negOfNat_eq]
          exact hexponent
        rw [hnumber]
        rfl
    rw [hfloat]
    exact ⟨m, q, g, ofFloat_ofModel_pack hbinary hform (hrounds.exponent_le hform hle), hform,
      hrounds⟩

end PenaltySimplex
