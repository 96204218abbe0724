import PenaltySimplex.Decimal.Binary
import PenaltySimplex.Proofs.FiniteFloat

/-!
# PenaltySimplex.Proofs.RoundedFloat

The pieces of rounding, and which numbers finite doubles stand for.

* `droppedBits`: how many bits rounding drops from `m * 2 ^ e`. What is left has 53 bits at most
  (`div_droppedBits_lt`).
* `greatest`: the largest finite double. The bits of a finite double give a number up to it
  (`ofFloat_of_isFinite`), and no other bits give a number (`isFinite_of_ofFloat`).
-/

namespace PenaltySimplex

open Float.Model (Format UnpackedFloat totalExponent)
open Float.Model.UnpackedFloat

/-- The largest finite double. -/
def greatest : ℚ := (2 ^ 53 - 1) * 2 ^ (971 : ℤ)

theorem greatest_lt : greatest < 2 ^ (1024 : ℤ) := by
  have hsplit : (2 : ℚ) ^ (1024 : ℤ) = 2 ^ 53 * 2 ^ (971 : ℤ) := by
    rw [← zpow_natCast, ← zpow_add₀ two_ne_zero]
    rfl
  rw [hsplit, greatest]
  exact mul_lt_mul_of_pos_right (sub_one_lt _) (zpow_pos two_pos _)

/-- A mantissa and an exponent that a double has room for. -/
theorem le_greatest {m : Nat} {e : ℤ} (hm : m < 2 ^ 53) (he : e ≤ 971) :
    (m : ℚ) * 2 ^ e ≤ greatest := by
  have hmantissa : (m : ℚ) ≤ 2 ^ 53 - 1 := by
    have hle : ((m + 1 : Nat) : ℚ) ≤ ((2 ^ 53 : Nat) : ℚ) := Nat.cast_le.2 hm
    rw [Nat.cast_succ, Nat.cast_pow, Nat.cast_ofNat] at hle
    exact le_sub_iff_add_le.2 hle
  exact mul_le_mul hmantissa (zpow_le_zpow_right₀ one_le_two he) (zpow_pos two_pos _).le
    (sub_nonneg.2 (one_le_pow₀ one_le_two))

/-! ## Dropping bits -/

theorem mantissa_shiftRight (em : ExtendedMantissa) (k : Nat) :
    (em >>> k).mantissa = em.mantissa / 2 ^ k := by
  induction k with
  | zero => exact (Nat.div_one _).symm
  | succ k ih =>
    show (em >>> k).mantissa / 2 = _
    rw [ih, Nat.div_div_eq_div_mul, Nat.pow_succ]

theorem shiftRight_exact (m k : Nat) :
    ExtendedMantissa.ofMantissaAndAccuracy (m * 2 ^ k) .exact >>> k =
      ExtendedMantissa.ofMantissaAndAccuracy m .exact := by
  induction k generalizing m with
  | zero => rw [Nat.pow_zero, Nat.mul_one]; rfl
  | succ k ih =>
    show ExtendedMantissa.shiftRightOne
      (ExtendedMantissa.ofMantissaAndAccuracy (m * 2 ^ (k + 1)) .exact >>> k) = _
    rw [Nat.pow_succ', ← Nat.mul_assoc, ih]
    simp [ExtendedMantissa.shiftRightOne, ExtendedMantissa.ofMantissaAndAccuracy]

theorem mantissa_ofMantissaAndAccuracy (m : Nat) (acc : Accuracy) :
    (ExtendedMantissa.ofMantissaAndAccuracy m acc).mantissa = m := by
  cases acc with
  | exact => rfl
  | inexact ordering => cases ordering <;> rfl

theorem roundedMantissa_le (em : ExtendedMantissa) : em.roundedMantissa ≤ em.mantissa + 1 := by
  obtain ⟨m, round, sticky⟩ := em
  cases round <;> cases sticky <;>
    simp [ExtendedMantissa.roundedMantissa, ExtendedMantissa.accuracy,
      Accuracy.roundToNearestEven]
  omega

/-- The bits that rounding drops from `m * 2 ^ e`. -/
def droppedBits (m : Nat) (e : ℤ) : Nat :=
  (Format.binary64.targetExponent (totalExponent m e) - e).toNat

theorem shiftToTargetExponent_eq (m : Nat) (e : ℤ) (acc : Accuracy) :
    shiftToTargetExponent Format.binary64 m e acc =
      (ExtendedMantissa.ofMantissaAndAccuracy m acc >>> droppedBits m e, e + droppedBits m e) :=
  rfl

theorem targetExponent_eq (m : Nat) (e : ℤ) :
    Format.binary64.targetExponent (totalExponent m e) = max (m.log2 + e - 52) (-1074) := by
  show max ((m.log2 : ℤ) + 1 + e - 53) (-1074) = _
  congr 1
  ring

theorem div_droppedBits_lt (m : Nat) (e : ℤ) : m / 2 ^ droppedBits m e < 2 ^ 53 := by
  rw [Nat.div_lt_iff_lt_mul (Nat.two_pow_pos _), ← Nat.pow_add]
  refine (Nat.lt_log2_self (n := m)).trans_le (Nat.pow_le_pow_right two_pos ?_)
  have htarget := targetExponent_eq m e
  unfold droppedBits
  omega

theorem cast_shiftLeft (m k : Nat) (e : ℤ) :
    ((m <<< k : Nat) : ℚ) * 2 ^ (e - k) = m * 2 ^ e := by
  rw [Nat.shiftLeft_eq, Nat.cast_mul, Nat.cast_pow, Nat.cast_ofNat, zpow_sub₀ two_ne_zero,
    zpow_natCast, mul_assoc, mul_div_cancel₀]
  exact pow_ne_zero k two_ne_zero

/-! ## Finite doubles -/

/-- Packs to a finite double. -/
def Fits (u : UnpackedFloat) : Prop :=
  (unpack Format.binary64 (pack Format.binary64 u)).isFinite = true

theorem fits_iff (u : UnpackedFloat) :
    Fits u ↔ unpackExponent (pack Format.binary64 u) ≠ -1#_ := by
  rw [Fits, isFinite_unpack, decide_eq_true_iff]

theorem fits_finite (sign : Sign) {m : Nat} {e : ℤ} (hm : 0 < m) (he : e ≤ 971) :
    Fits (.finite sign m e hm) := by
  have hbiased : (e + 1023 + 52).toNat ≤ 2046 := by omega
  rw [fits_iff, pack]
  split
  · rename_i hoverflow
    have hoverflow : 2 ^ 11 ≤ (e + 1023 + 52).toNat + 1 := hoverflow
    omega
  · split
    · rw [unpackExponent_packComponents]
      intro h
      have hbits : (e + 1023 + 52).toNat % 2048 = 2047 := congrArg BitVec.toNat h
      rw [Nat.mod_eq_of_lt (by omega)] at hbits
      omega
    · rw [unpackExponent_packComponents]
      decide

theorem toNat_unpackExponent (b : BitVec 64) :
    (@unpackExponent Format.binary64 b).toNat = b.toNat / 2 ^ 52 % 2048 := by
  show ((b.extractLsb 62 52).cast _).toNat = _
  rw [BitVec.toNat_cast, BitVec.extractLsb_toNat, Nat.shiftRight_eq_div_pow]

theorem toNat_unpackExponent_le {b : BitVec 64}
    (h : (unpack Format.binary64 b).isFinite = true) :
    (@unpackExponent Format.binary64 b).toNat ≤ 2046 := by
  rw [isFinite_unpack, decide_eq_true_iff] at h
  have hlt : (@unpackExponent Format.binary64 b).toNat < 2048 := BitVec.isLt _
  have hne : (@unpackExponent Format.binary64 b).toNat ≠ 2047 :=
    fun heq => h (BitVec.eq_of_toNat_eq heq)
  exact Nat.le_of_lt_succ (lt_of_le_of_ne (Nat.le_of_lt_succ hlt) hne)

/-- The bits of a finite double give a number up to the largest double. -/
theorem ofFloat_of_isFinite {x : Float} (h : x.isFinite = true) :
    ∃ negative m q, Decimal.Binary.ofFloat x = .finite negative m q ∧
      (m : ℚ) * 2 ^ q ≤ greatest := by
  obtain ⟨⟨⟨bits⟩, valid⟩⟩ := x
  have hexponent := toNat_unpackExponent_le (b := bits) h
  rw [toNat_unpackExponent] at hexponent
  show ∃ negative m q, Decimal.Binary.ofBits bits.toNat = .finite negative m q ∧ _
  have hfraction : bits.toNat % Decimal.leastNormal < Decimal.leastNormal :=
    Nat.mod_lt _ (by decide)
  have hleast : Decimal.leastNormal = 2 ^ 52 := by decide
  unfold Decimal.Binary.ofBits
  simp only
  rw [← hleast] at hexponent
  rw [if_neg (by omega)]
  split
  · exact ⟨_, _, _, rfl, le_greatest (by omega) (by decide)⟩
  · exact ⟨_, _, _, rfl, le_greatest (by omega) (by omega)⟩

theorem ofFloat_of_not_isFinite {x : Float} (h : x.isFinite = false) :
    Decimal.Binary.ofFloat x = .nan ∨ ∃ negative, Decimal.Binary.ofFloat x = .infinity negative := by
  obtain ⟨⟨⟨bits⟩, valid⟩⟩ := x
  have hones : @unpackExponent Format.binary64 bits = -1#_ := by
    have hunpack := @isFinite_unpack Format.binary64 bits
    rw [show (unpack Format.binary64 bits).isFinite = false from h] at hunpack
    exact not_not.1 (of_decide_eq_false hunpack.symm)
  have hexponent := congrArg BitVec.toNat hones
  rw [toNat_unpackExponent] at hexponent
  have hexponent : bits.toNat / Decimal.leastNormal % 2048 = 2047 := hexponent
  show Decimal.Binary.ofBits bits.toNat = _ ∨ ∃ negative, Decimal.Binary.ofBits bits.toNat = _
  unfold Decimal.Binary.ofBits
  simp only [hexponent, if_true]
  split
  · exact .inr ⟨_, rfl⟩
  · exact .inl rfl

theorem isFinite_of_ofFloat {x : Float} {negative : Bool} {m : Nat} {q : ℤ}
    (h : Decimal.Binary.ofFloat x = .finite negative m q) : x.isFinite = true := by
  by_contra hx
  obtain hnan | ⟨sign, hinfinity⟩ := ofFloat_of_not_isFinite (Bool.eq_false_iff.2 hx)
  · rw [hnan] at h
    cases h
  · rw [hinfinity] at h
    cases h

end PenaltySimplex
