import PenaltySimplex.Decimal.Numeral
import PenaltySimplex.Proofs.NumeralFloat

/-!
# PenaltySimplex.Proofs.RoundingInterval

Which numbers are rounded to a double: those up to halfway to its neighbours, the halves included
when its mantissa is even (`RoundsTo`). A numeral for such a number reads as that double
(`toFloat_of_roundsTo`), and not just as one of the same value: the form of a double is unique
(`DoubleForm.eq_of_value_eq`) and so are its bits (`eq_of_ofFloat_eq`).
-/

namespace PenaltySimplex

open Decimal (leastNormal)

/-- The distance to the next double below, which is smaller at a power of two. -/
def stepBelow (m : Nat) (q : ℤ) : ℚ :=
  if m = leastNormal ∧ -1074 < q then 2 ^ (q - 1) else 2 ^ q

/-- Up to halfway to the neighbours of a double. -/
def RoundsTo (m : Nat) (q : ℤ) (y : ℚ) : Prop :=
  if m % 2 = 0 then m * 2 ^ q - stepBelow m q / 2 ≤ y ∧ y ≤ m * 2 ^ q + 2 ^ q / 2
  else m * 2 ^ q - stepBelow m q / 2 < y ∧ y < m * 2 ^ q + 2 ^ q / 2

theorem stepBelow_le (m : Nat) (q : ℤ) : stepBelow m q ≤ 2 ^ q := by
  unfold stepBelow
  split
  · exact zpow_le_zpow_right₀ one_le_two (by omega)
  · exact le_rfl

theorem RoundsTo.bounds {m : Nat} {q : ℤ} {y : ℚ} (h : RoundsTo m q y) :
    m * 2 ^ q - stepBelow m q / 2 ≤ y ∧ y ≤ m * 2 ^ q + 2 ^ q / 2 := by
  unfold RoundsTo at h
  split at h
  · exact h
  · exact ⟨h.1.le, h.2.le⟩

theorem RoundsTo.of_lt {m : Nat} {q : ℤ} {y : ℚ} (hlow : m * 2 ^ q - stepBelow m q / 2 < y)
    (hhigh : y < m * 2 ^ q + 2 ^ q / 2) : RoundsTo m q y := by
  unfold RoundsTo
  split
  · exact ⟨hlow.le, hhigh.le⟩
  · exact ⟨hlow, hhigh⟩

theorem RoundsTo.abs_sub_le {m : Nat} {q : ℤ} {y : ℚ} (h : RoundsTo m q y) :
    |m * 2 ^ q - y| ≤ 2 ^ (q - 1) := by
  have hstep := two_zpow_sub_one q
  have hbelow := stepBelow_le m q
  obtain ⟨hlow, hhigh⟩ := h.bounds
  rw [abs_le]
  constructor <;> linarith

/-- The end of the interval belongs to it for an even mantissa only. -/
theorem RoundsTo.even_of_tie {m : Nat} {q : ℤ} {y : ℚ} (h : RoundsTo m q y)
    (htie : |m * 2 ^ q - y| = 2 ^ (q - 1)) : Even m := by
  rw [Nat.even_iff]
  by_contra hodd
  rw [RoundsTo, if_neg hodd] at h
  have hstep := two_zpow_sub_one q
  have hbelow := stepBelow_le m q
  have hlt : |m * 2 ^ q - y| < 2 ^ (q - 1) := by
    rw [abs_lt]
    constructor <;> linarith [h.1, h.2]
  exact hlt.ne htie

/-- Below a double the grid is finer only at a power of two, by one bit. -/
theorem RoundsTo.of_exponent_lt {m : Nat} {q e : ℤ} {y w : ℚ} (h : RoundsTo m q y)
    (hform : DoubleForm m q) (hr : RoundsEven e y w) (hlt : e < q) :
    m = leastNormal ∧ q = e + 1 ∧ |m * 2 ^ q - y| ≤ 2 ^ (e - 1) := by
  have hleast := hr.least
  have hpos : (0 : ℚ) < 2 ^ q := zpow_pos two_pos q
  have hfactor (k : Nat) : (2 : ℚ) ^ (q + k) = 2 ^ k * 2 ^ q := by
    rw [zpow_add₀ two_ne_zero, zpow_natCast, mul_comm]
  have hcoarse : y < 2 ^ 52 * 2 ^ q := by
    rw [← hfactor]
    exact hr.coarse.trans_le (zpow_le_zpow_right₀ one_le_two (by push_cast; omega))
  have hm : m = leastNormal := by
    refine le_antisymm ?_ (hform.normal.resolve_right (by omega))
    by_contra hbig
    have hcast : ((2 ^ 52 + 1 : Nat) : ℚ) ≤ m := Nat.cast_le.2 (not_le.1 hbig)
    push_cast at hcast
    have hscaled := mul_le_mul_of_nonneg_right hcast hpos.le
    linarith [h.bounds.1, stepBelow_le m q]
  have hcast : (m : ℚ) = 2 ^ 52 := by
    rw [hm]
    norm_num [leastNormal]
  have hbelow : stepBelow m q = 2 ^ (q - 1) := if_pos ⟨hm, by omega⟩
  have hlow := h.bounds.1
  rw [hbelow, hcast] at hlow
  have hhalf := two_zpow_sub_one q
  have hq : q = e + 1 := by
    by_contra hfar
    have hfiner : y < 2 ^ 51 * 2 ^ q := by
      rw [← hfactor]
      exact hr.coarse.trans_le (zpow_le_zpow_right₀ one_le_two (by push_cast; omega))
    linarith
  subst hq
  refine ⟨hm, rfl, ?_⟩
  have hquarter := two_zpow_sub_one e
  rw [add_sub_cancel_right] at hlow
  rw [hcast, abs_of_pos (by linarith)]
  linarith

/-- A number that rounds to a double is rounded to it. -/
theorem RoundsEven.eq_of_roundsTo {e : ℤ} {y w : ℚ} (hr : RoundsEven e y w) {m : Nat} {q : ℤ}
    (hform : DoubleForm m q) (h : RoundsTo m q y) : w = m * 2 ^ q := by
  obtain hlt | rfl | hgt := lt_trichotomy e q
  · obtain ⟨rfl, rfl, hnear⟩ := h.of_exponent_lt hform hr hlt
    have hgrid : (leastNormal : ℚ) * 2 ^ (e + 1) = (leastNormal + leastNormal : Nat) * 2 ^ e := by
      rw [zpow_add_one₀ two_ne_zero]
      push_cast
      ring
    obtain hstrict | htie := lt_or_eq_of_le hnear
    · exact hr.eq_of_near hform.mantissa hform.exponent hstrict
    · rw [hgrid] at htie ⊢
      exact hr.eq_of_tie ⟨leastNormal, rfl⟩ htie
  · obtain hstrict | htie := lt_or_eq_of_le h.abs_sub_le
    · exact hr.eq_of_near hform.mantissa hform.exponent hstrict
    · exact hr.eq_of_tie (h.even_of_tie htie) htie
  · refine hr.eq_of_near hform.mantissa hform.exponent (h.abs_sub_le.trans_lt ?_)
    exact zpow_lt_zpow_right₀ one_lt_two (by omega)

/-! ## One form and one double for each value -/

theorem DoubleForm.le_of_value_eq {m m' : Nat} {q q' : ℤ} (h : DoubleForm m q)
    (h' : DoubleForm m' q') (heq : (m : ℚ) * 2 ^ q = m' * 2 ^ q') : q' ≤ q := by
  by_contra hlt
  have hexponent := h.exponent
  have hnormal : ((2 ^ 52 : Nat) : ℚ) ≤ m' := Nat.cast_le.2 (h'.normal.resolve_right (by omega))
  have hmantissa : (m : ℚ) < (2 ^ 53 : Nat) := Nat.cast_lt.2 h.mantissa
  have hpos : (0 : ℚ) < 2 ^ q := zpow_pos two_pos q
  have hpower : 2 * (2 : ℚ) ^ q ≤ 2 ^ q' := by
    rw [← zpow_one_add₀ two_ne_zero]
    exact zpow_le_zpow_right₀ one_le_two (by omega)
  have hvalue : (m : ℚ) * 2 ^ q < m' * 2 ^ q' :=
    calc (m : ℚ) * 2 ^ q < (2 ^ 53 : Nat) * 2 ^ q := mul_lt_mul_of_pos_right hmantissa hpos
      _ = (2 ^ 52 : Nat) * (2 * 2 ^ q) := by push_cast; ring
      _ ≤ m' * 2 ^ q' := mul_le_mul hnormal hpower (by positivity) (Nat.cast_nonneg m')
  exact hvalue.ne heq

theorem DoubleForm.eq_of_value_eq {m m' : Nat} {q q' : ℤ} (h : DoubleForm m q)
    (h' : DoubleForm m' q') (heq : (m : ℚ) * 2 ^ q = m' * 2 ^ q') : m = m' ∧ q = q' := by
  obtain rfl := le_antisymm (h'.le_of_value_eq h heq.symm) (h.le_of_value_eq h' heq)
  exact ⟨Nat.cast_injective (mul_right_cancel₀ (zpow_pos two_pos q).ne' heq), rfl⟩

theorem eq_of_ofBits_eq {a b : Nat} (ha : a < 2 ^ 64) (hb : b < 2 ^ 64) {negative : Bool} {m : Nat}
    {q : ℤ} (h : Decimal.Binary.ofBits a = .finite negative m q)
    (h' : Decimal.Binary.ofBits b = .finite negative m q) : a = b := by
  have hleast : leastNormal = 2 ^ 52 := by decide
  have hparts (c : Nat) (hc : c < 2 ^ 64) (h : Decimal.Binary.ofBits c = .finite negative m q) :
      (negative = true ↔ 2 ^ 63 ≤ c) ∧
        (m + 2 ^ 52 * (q + 1074).toNat : ℤ) = c % 2 ^ 63 := by
    simp only [Decimal.Binary.ofBits, hleast] at h
    split at h
    · split at h <;> cases h
    · split at h
      · cases h
        constructor
        · exact decide_eq_true_iff
        · omega
      · cases h
        constructor
        · exact decide_eq_true_iff
        · omega
  obtain ⟨hsign, hrest⟩ := hparts a ha h
  obtain ⟨hsign', hrest'⟩ := hparts b hb h'
  have hsame := hsign.symm.trans hsign'
  omega

/-- A finite double is the only one with its sign, mantissa and exponent. -/
theorem eq_of_ofFloat_eq {x y : Float} {negative : Bool} {m : Nat} {q : ℤ}
    (h : Decimal.Binary.ofFloat x = .finite negative m q)
    (h' : Decimal.Binary.ofFloat y = .finite negative m q) : x = y := by
  obtain ⟨⟨⟨a⟩, ha⟩⟩ := x
  obtain ⟨⟨⟨b⟩, hb⟩⟩ := y
  obtain rfl : a = b := BitVec.eq_of_toNat_eq (eq_of_ofBits_eq a.isLt b.isLt h h')
  rfl

/-- A numeral for a number that rounds to a double reads as it. -/
theorem toFloat_of_roundsTo {x : Float} {negative : Bool} {m : Nat} {q : ℤ}
    (hx : Decimal.Binary.ofFloat x = .finite negative m q) {n : Nat} {e : ℤ}
    (hle : (n : ℚ) * 10 ^ e ≤ greatest) (h : RoundsTo m q (n * 10 ^ e)) :
    Decimal.Numeral.toFloat ⟨negative, n, e⟩ = x := by
  obtain ⟨m', q', g, hbinary, hform', hrounds⟩ := ofFloat_ofScientific hle
  have hform := (doubleForm_ofFloat hx).1
  obtain ⟨rfl, rfl⟩ := hform'.eq_of_value_eq hform (hrounds.eq_of_roundsTo hform h)
  cases negative with
  | false => exact eq_of_ofFloat_eq hbinary hx
  | true => exact eq_of_ofFloat_eq (ofFloat_neg hbinary) hx

end PenaltySimplex
