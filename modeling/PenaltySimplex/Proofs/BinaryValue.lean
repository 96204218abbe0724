import Mathlib.Algebra.Order.Field.Basic
import Mathlib.Data.Rat.Cast.Order
import PenaltySimplex.Decimal.Binary

/-!
# PenaltySimplex.Proofs.BinaryValue

The exact rational value of a double, and what it means that a double is a natural number.
-/

namespace PenaltySimplex

namespace Decimal.Binary

/-- The exact value of a finite double. -/
def rational? : Binary → Option ℚ
  | .finite negative mantissa exponent =>
    some ((if negative then -1 else 1) * (mantissa : ℚ) * (2 : ℚ) ^ exponent)
  | _ => none

theorem cast_powerOfTwo (n : Nat) : ((powerOfTwo n : Nat) : ℚ) = (2 : ℚ) ^ (n : Int) := by
  rw [zpow_natCast]
  exact Nat.cast_pow 2 n

theorem powerOfTwo_pos (n : Nat) : 0 < powerOfTwo n := Nat.two_pow_pos n

theorem natural?_positive {mantissa n : Nat} {exponent : Int} :
    (finite false mantissa exponent).natural? = some n ↔
      (mantissa : ℚ) * (2 : ℚ) ^ exponent = n := by
  rw [natural?, Bool.false_and, if_neg Bool.false_ne_true]
  by_cases hexponent : 0 ≤ exponent
  · have hcast := cast_powerOfTwo exponent.toNat
    rw [Int.toNat_of_nonneg hexponent] at hcast
    rw [if_pos hexponent, ← hcast, Option.some_inj]
    exact_mod_cast Iff.rfl
  · have hcast := cast_powerOfTwo (-exponent).toNat
    rw [Int.toNat_of_nonneg (by omega), zpow_neg] at hcast
    have hpower : (2 : ℚ) ^ exponent = (powerOfTwo (-exponent).toNat : ℚ)⁻¹ := by
      rw [hcast, inv_inv]
    have hpos := powerOfTwo_pos (-exponent).toNat
    generalize powerOfTwo (-exponent).toNat = d at hpower hpos
    rw [if_neg hexponent, hpower, mul_inv_eq_iff_eq_mul₀ (Nat.cast_pos.2 hpos).ne']
    constructor
    · intro h
      split at h
      · rename_i hmod
        rw [← Option.some.inj h]
        exact_mod_cast (Nat.div_mul_cancel (Nat.dvd_of_mod_eq_zero hmod)).symm
      · cases h
    · intro h
      have hmul : mantissa = n * d := by exact_mod_cast h
      rw [hmul, Nat.mul_mod_left, if_pos rfl, Nat.mul_div_cancel n hpos]

/-- A double counts as a natural number exactly if that is its value; both zeros are zero. -/
theorem natural?_eq_some_iff {b : Binary} {n : Nat} :
    b.natural? = some n ↔ b.rational? = some (n : ℚ) := by
  cases b with
  | nan => simp [natural?, rational?]
  | infinity negative => simp [natural?, rational?]
  | finite negative mantissa exponent =>
    rw [rational?, Option.some_inj]
    cases negative with
    | false =>
      rw [natural?_positive, if_neg Bool.false_ne_true, one_mul]
    | true =>
      rw [if_pos rfl, neg_one_mul, neg_mul]
      by_cases hzero : mantissa = 0
      · subst hzero
        have hpositive := @natural?_positive 0 n exponent
        rw [Nat.cast_zero, zero_mul] at hpositive
        rw [Nat.cast_zero, zero_mul, neg_zero]
        exact hpositive
      · have hmantissa : (0 : ℚ) < mantissa := Nat.cast_pos.2 (Nat.pos_of_ne_zero hzero)
        have hpos := mul_pos hmantissa (zpow_pos two_pos exponent)
        have hn : (0 : ℚ) ≤ n := Nat.cast_nonneg n
        rw [natural?, Bool.true_and, if_pos (bne_iff_ne.2 hzero)]
        constructor
        · intro h
          cases h
        · intro h
          rw [neg_eq_iff_eq_neg.1 h] at hpos
          exact absurd hpos (not_lt.2 (neg_nonpos.2 hn))

end Decimal.Binary

end PenaltySimplex
