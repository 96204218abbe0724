import PenaltySimplex.Decimal.Numeral
import PenaltySimplex.Decimal.Text
import PenaltySimplex.Proofs.NumeralFloat

/-!
# PenaltySimplex.Proofs.WrittenNumber

The text of a finite double with ten places reads as a finite double.

The text is a sign, digits, a point and ten digits (`fixed_eq`), and reads as the quotient of those
digits and `10 ^ 10`. That quotient is the rounded value of the double, and no rounding to whole
units goes past a whole number (`roundHalfEven_le`), so it is at most the largest double.
-/

namespace PenaltySimplex.Decimal

/-! ## Digits -/

theorem digitsValue_eq (ds : List Char) : digitsValue ds = Nat.ofDigitChars 10 ds 0 :=
  Nat.ofDigitChars_eq_foldl.symm

theorem digitsValue_digits (n : Nat) : digitsValue (digits n) = n := by
  rw [digitsValue_eq]
  exact Nat.ofDigitChars_ten_toDigits

theorem digitsValue_zeros_append (k n : Nat) : digitsValue (zeros k ++ digits n) = n := by
  rw [digitsValue_eq, zeros, Nat.ofDigitChars_append, Nat.ofDigitChars_replicate_zero, Nat.mul_zero,
    ← digitsValue_eq, digitsValue_digits]

theorem isDigit_of_mem_digits {n : Nat} {c : Char} (h : c ∈ digits n) : c.isDigit = true :=
  Nat.isDigit_of_mem_toDigits (by decide) (by decide) h

theorem isDigit_of_mem_zeros {k : Nat} {c : Char} (h : c ∈ zeros k) : c.isDigit = true := by
  rw [List.eq_of_mem_replicate h]
  rfl

theorem isDigit_of_mem_padded {k n : Nat} {c : Char} (h : c ∈ zeros k ++ digits n) :
    c.isDigit = true :=
  (List.mem_append.1 h).elim isDigit_of_mem_zeros isDigit_of_mem_digits

/-- Digits before and after a point, and the number that they make up without it. -/
structure Placed (whole fraction : List Char) (n : Nat) : Prop where
  nonempty : whole ≠ []
  before : ∀ c ∈ whole, c.isDigit = true
  after : ∀ c ∈ fraction, c.isDigit = true
  value : digitsValue (whole ++ fraction) = n

theorem exists_placed {places : Nat} (hplaces : places ≠ 0) (n : Nat) :
    ∃ whole fraction, placed places n = whole ++ '.' :: fraction ∧ fraction.length = places ∧
      Placed whole fraction n := by
  obtain ⟨ds, hds⟩ : ∃ ds, zeros (places + 1 - (digits n).length) ++ digits n = ds := ⟨_, rfl⟩
  have hlength : places < ds.length := by
    rw [← hds, List.length_append, zeros, List.length_replicate]
    omega
  have hdigits : ∀ c ∈ ds, c.isDigit = true := by
    intro c hc
    rw [← hds] at hc
    exact isDigit_of_mem_padded hc
  refine ⟨ds.take (ds.length - places), ds.drop (ds.length - places), ?_, ?_, ?_, ?_, ?_, ?_⟩
  · simp only [placed, hds, if_neg hplaces]
  · rw [List.length_drop]
    omega
  · refine List.ne_nil_of_length_pos ?_
    rw [List.length_take]
    omega
  · exact fun c hc => hdigits c (List.mem_of_mem_take hc)
  · exact fun c hc => hdigits c (List.mem_of_mem_drop hc)
  · rw [List.take_append_drop, ← hds, digitsValue_zeros_append]

/-! ## Reading back -/

variable {whole fraction : List Char} {n : Nat}

theorem takeSign_signText (negative : Bool) {c : Char} {cs : List Char} (hc : c.isDigit = true) :
    takeSign (signText negative ++ c :: cs) = (negative, c :: cs) := by
  cases negative with
  | true => rfl
  | false =>
    have hminus : c ≠ '-' := by
      rintro rfl
      exact absurd hc (by decide)
    have hplus : c ≠ '+' := by
      rintro rfl
      exact absurd hc (by decide)
    show takeSign (c :: cs) = _
    unfold takeSign
    split
    · rename_i h
      exact absurd (List.cons.inj h).1 hminus
    · rename_i h
      exact absurd (List.cons.inj h).1 hplus
    · rfl

theorem readUnsigned_placed (h : Placed whole fraction n) (negative : Bool) :
    readUnsigned negative (whole ++ '.' :: fraction) =
      some ⟨negative, n, -fraction.length⟩ := by
  have hpoint : ¬ ('.'.isDigit = true) := by decide
  have htake : (whole ++ '.' :: fraction).takeWhile Char.isDigit = whole := by
    rw [List.takeWhile_append_of_pos h.before, List.takeWhile_cons_of_neg hpoint, List.append_nil]
  have hdrop : (whole ++ '.' :: fraction).dropWhile Char.isDigit = '.' :: fraction := by
    rw [List.dropWhile_append_of_pos h.before, List.dropWhile_cons_of_neg hpoint]
  have hplaces : takePlaces ('.' :: fraction) = (fraction, []) := by
    rw [takePlaces, List.takeWhile_eq_self_iff.2 h.after, List.dropWhile_eq_nil_iff.2 h.after]
  rw [readUnsigned]
  simp only [htake, hdrop, hplaces, h.nonempty, false_and, if_false, h.value]
  rw [readExponent, Option.map_some, zero_sub]

theorem readFloat_placed (h : Placed whole fraction n) (negative : Bool) :
    readFloat (String.ofList (signText negative ++ (whole ++ '.' :: fraction))) =
      some (Numeral.toFloat ⟨negative, n, -fraction.length⟩) := by
  obtain ⟨c, cs, rfl⟩ := List.exists_cons_of_ne_nil h.nonempty
  have hsign : takeSign (signText negative ++ c :: (cs ++ '.' :: fraction)) =
      (negative, c :: (cs ++ '.' :: fraction)) :=
    takeSign_signText negative (h.before c List.mem_cons_self)
  rw [List.cons_append, readFloat, String.toList_ofList]
  rw [hsign, ← List.cons_append]
  simp only
  -- a word has no point
  have hword (word : String) (hne : '.' ∉ word.toList) :
      String.ofList (((c :: cs) ++ '.' :: fraction).map Char.toLower) ≠ word := by
    rintro rfl
    rw [String.toList_ofList] at hne
    exact hne (List.mem_map.2 ⟨'.', List.mem_append_right _ List.mem_cons_self, by decide⟩)
  rw [if_neg (not_or.2 ⟨hword "inf" (by decide), hword "infinity" (by decide)⟩),
    if_neg (hword "nan" (by decide)), readUnsigned_placed h, Option.map_some]

/-! ## The text of a double -/

theorem roundHalfEven_le {num den k : Nat} (hden : 0 < den) (h : num ≤ k * den) :
    roundHalfEven num den ≤ k := by
  obtain hlt | rfl := lt_or_eq_of_le h
  · have hlow : num / den < k := (Nat.div_lt_iff_lt_mul hden).2 hlt
    simp only [roundHalfEven]
    split
    · exact hlow.le
    · split <;> omega
  · rw [roundHalfEven_exact (Nat.dvd_mul_left den k) hden, Nat.mul_div_cancel k hden]

/-- What is written of a finite double, without its sign. -/
def writtenUnits (places m : Nat) (q : ℤ) : Nat :=
  roundHalfEven (scaled m q places).num (scaled m q places).den

theorem fixed_eq {x : Float} {negative : Bool} {m : Nat} {q : ℤ}
    (h : Binary.ofFloat x = .finite negative m q) (places : Nat) :
    fixed places x =
      String.ofList (signText negative ++ placed places (writtenUnits places m q)) := by
  rw [fixed, render, h]
  rfl

theorem exists_greatest : ∃ k : Nat, greatest = k := by
  refine ⟨(2 ^ 53 - 1) * 2 ^ 971, ?_⟩
  rw [greatest, Nat.cast_mul, Nat.cast_pow, zpow_ofNat, Nat.cast_sub Nat.one_le_two_pow]
  norm_num only [Nat.cast_pow, Nat.cast_ofNat, Nat.cast_one]

theorem den_scaled_pos (m : Nat) (q p : ℤ) : 0 < (scaled m q p).den :=
  Nat.mul_pos (Nat.two_pow_pos _) (Nat.pow_pos (by decide))

theorem num_scaled_eq (m places : Nat) (q : ℤ) :
    ((scaled m q places).num : ℚ) = m * 2 ^ q * 10 ^ places * (scaled m q places).den := by
  have hpower : (2 : ℚ) ^ q * 2 ^ ((-q).toNat : ℤ) = 2 ^ (q.toNat : ℤ) := by
    rw [← zpow_add₀ two_ne_zero]
    congr 1
    omega
  have hnum : ((scaled m q places).num : ℚ) = m * 2 ^ (q.toNat : ℤ) * 10 ^ places := by
    rw [← Binary.cast_powerOfTwo]
    show ((m * powerOfTwo q.toNat * Nat.pow 10 places : Nat) : ℚ) = _
    rw [Nat.cast_mul, Nat.cast_mul, Nat.pow_eq, Nat.cast_pow, Nat.cast_ofNat]
  have hden : ((scaled m q places).den : ℚ) = 2 ^ ((-q).toNat : ℤ) := by
    rw [← Binary.cast_powerOfTwo]
    show ((powerOfTwo (-q).toNat * Nat.pow 10 (-(places : ℤ)).toNat : Nat) : ℚ) = _
    rw [show (-(places : ℤ)).toNat = 0 by omega, Nat.pow_eq, Nat.pow_zero, Nat.mul_one]
  rw [hnum, hden, ← hpower]
  ring

/-- Rounding to places does not go past the largest double. -/
theorem writtenUnits_le {m : Nat} {q : ℤ} (h : (m : ℚ) * 2 ^ q ≤ greatest) (places : Nat) :
    (writtenUnits places m q : ℚ) ≤ greatest * 10 ^ places := by
  obtain ⟨k, hk⟩ := exists_greatest
  have hcast : greatest * 10 ^ places = ((k * 10 ^ places : Nat) : ℚ) := by
    rw [hk, Nat.cast_mul, Nat.cast_pow, Nat.cast_ofNat]
  rw [hcast, Nat.cast_le]
  refine roundHalfEven_le (den_scaled_pos m q places) ?_
  rw [← Nat.cast_le (α := ℚ), num_scaled_eq, Nat.cast_mul, ← hcast]
  refine mul_le_mul_of_nonneg_right ?_ (Nat.cast_nonneg _)
  exact mul_le_mul_of_nonneg_right h (by positivity)

/-- What is written reads as the double that it is rounded to. -/
theorem exists_ofFloat_writtenUnits {m : Nat} {q : ℤ} (h : (m : ℚ) * 2 ^ q ≤ greatest) :
    ∃ m' q' e, Binary.ofFloat (Float.ofScientific (writtenUnits 10 m q) true 10) =
      .finite false m' q' ∧ RoundsAt e (writtenUnits 10 m q / 10 ^ 10) (m' * 2 ^ q') := by
  have hscale : (writtenUnits 10 m q : ℚ) * 10 ^ (-10 : ℤ) = writtenUnits 10 m q / 10 ^ 10 := by
    rw [zpow_neg, zpow_ofNat, ← div_eq_mul_inv]
  have hle : (writtenUnits 10 m q : ℚ) * 10 ^ (-10 : ℤ) ≤ greatest := by
    rw [hscale, div_le_iff₀ (by norm_num)]
    exact writtenUnits_le h 10
  obtain ⟨m', q', e, hbinary, _, hrounds⟩ := ofFloat_ofScientific hle
  rw [hscale] at hrounds
  exact ⟨m', q', e, hbinary, hrounds.toRoundsAt⟩

/-- What is written of a finite double, and what that reads as. -/
theorem fixed_placed {x : Float} {negative : Bool} {m : Nat} {q : ℤ}
    (h : Binary.ofFloat x = .finite negative m q) : ∃ whole fraction,
      fixed 10 x = String.ofList (signText negative ++ (whole ++ '.' :: fraction)) ∧
      Placed whole fraction (writtenUnits 10 m q) ∧
      readFloat (fixed 10 x) =
        some (if negative then -(Float.ofScientific (writtenUnits 10 m q) true 10)
          else Float.ofScientific (writtenUnits 10 m q) true 10) := by
  obtain ⟨whole, fraction, hplaced, hlength, hdigits⟩ :=
    exists_placed (show 10 ≠ 0 by decide) (writtenUnits 10 m q)
  have htext := fixed_eq h 10
  rw [hplaced] at htext
  refine ⟨whole, fraction, htext, hdigits, ?_⟩
  have hnegative : decide ((-(10 : Nat) : ℤ) < 0) = true := by decide
  have hplaces : (-(10 : Nat) : ℤ).natAbs = 10 := by decide
  rw [htext, readFloat_placed hdigits, hlength, Numeral.toFloat]
  simp only [hnegative, hplaces]

/-- A finite double is written as a sign and digits with ten places that read as a finite
double. -/
theorem exists_fixed_placed {x : Float} (hx : x.isFinite = true) :
    ∃ negative whole fraction n v,
      fixed 10 x = String.ofList (signText negative ++ (whole ++ '.' :: fraction)) ∧
      Placed whole fraction n ∧ readFloat (fixed 10 x) = some v ∧ v.isFinite = true := by
  obtain ⟨negative, m, q, hbinary, hle⟩ := ofFloat_of_isFinite hx
  obtain ⟨whole, fraction, htext, hdigits, hread⟩ := fixed_placed hbinary
  refine ⟨negative, whole, fraction, _, _, htext, hdigits, hread, ?_⟩
  obtain ⟨m', q', _, hvalue, _⟩ := exists_ofFloat_writtenUnits hle
  have hmagnitude := isFinite_of_ofFloat hvalue
  cases negative with
  | false =>
    rw [if_neg Bool.false_ne_true]
    exact hmagnitude
  | true =>
    rw [if_pos rfl]
    exact (isFinite_neg _).trans hmagnitude

theorem fixed_of_not_isFinite {x : Float} (hx : x.isFinite = false) (places : Nat) :
    fixed places x = "NaN" ∨ fixed places x = "inf" ∨ fixed places x = "-inf" := by
  obtain h | ⟨negative, h⟩ := ofFloat_of_not_isFinite hx
  · exact .inl (by rw [fixed, render, h])
  · rw [fixed, render, h]
    cases negative with
    | false => exact .inr (.inl rfl)
    | true => exact .inr (.inr rfl)

end PenaltySimplex.Decimal
