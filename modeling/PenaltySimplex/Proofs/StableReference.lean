import PenaltySimplex.Proofs.NearestFloat
import PenaltySimplex.Proofs.WrittenReference

/-!
# PenaltySimplex.Proofs.StableReference

A written reference is read and written again without a change (`writeReference_stable`).

Reading a number with ten places rounds it to a double, and writing that double rounds it back to
ten places. Where the steps between doubles are finer than ten places, the second rounding undoes
the first. Where they are coarser, ten places are enough to tell doubles apart, so the double that
is read is the one that was written (`writtenUnits_of_roundsAt`).
-/

namespace PenaltySimplex

namespace Decimal

/-! ## Rounding to places -/

theorem roundHalfEven_mul_right (num den : Nat) {k : Nat} (hk : 0 < k) :
    roundHalfEven (num * k) (den * k) = roundHalfEven num den := by
  have hless : 2 * (num % den * k) < den * k ↔ 2 * (num % den) < den := by
    rw [← Nat.mul_assoc]
    exact Nat.mul_lt_mul_right hk
  have hmore : den * k < 2 * (num % den * k) ↔ den < 2 * (num % den) := by
    rw [← Nat.mul_assoc]
    exact Nat.mul_lt_mul_right hk
  simp only [roundHalfEven, Nat.mul_div_mul_right _ _ hk, Nat.mul_mod_mul_right, hless, hmore]

/-- Only the quotient matters. -/
theorem roundHalfEven_congr {num den num' den' : Nat} (hden : 0 < den) (hden' : 0 < den')
    (h : num * den' = num' * den) : roundHalfEven num den = roundHalfEven num' den' :=
  calc roundHalfEven num den = roundHalfEven (num * den') (den * den') :=
        (roundHalfEven_mul_right num den hden').symm
    _ = roundHalfEven (num' * den) (den' * den) := by rw [h, Nat.mul_comm den]
    _ = roundHalfEven num' den' := roundHalfEven_mul_right num' den' hden

theorem abs_roundHalfEven_sub_le (num : Nat) {den : Nat} (hden : 0 < den) :
    |(roundHalfEven num den : ℚ) - num / den| ≤ 1 / 2 := by
  have hpos : (0 : ℚ) < den := Nat.cast_pos.2 hden
  have hdivide : ((num / den : Nat) : ℚ) * den + (num % den : Nat) = num := by
    exact_mod_cast Nat.div_add_mod' num den
  have hquotient : (num : ℚ) / den = (num / den : Nat) + (num % den : Nat) / den := by
    rw [div_eq_iff hpos.ne', add_mul, div_mul_cancel₀ _ hpos.ne', hdivide]
  have hrest : ((num % den : Nat) : ℚ) / den < 1 :=
    (div_lt_one hpos).2 (Nat.cast_lt.2 (Nat.mod_lt _ hden))
  have hnonneg : 0 ≤ ((num % den : Nat) : ℚ) / den := by positivity
  rw [hquotient, abs_le]
  simp only [roundHalfEven]
  split
  · rename_i hless
    have hhalf := (div_lt_half_iff hden).2 hless
    constructor <;> linarith
  · split
    · rename_i hmore
      have hhalf := (half_lt_div_iff hden).2 hmore
      push_cast
      constructor <;> linarith
    · have hhalf : ((num % den : Nat) : ℚ) / den = 1 / 2 := (div_eq_half_iff hden).2 (by omega)
      rw [hhalf]
      obtain hbit | hbit := Nat.mod_two_eq_zero_or_one (num / den) <;> rw [hbit] <;>
        push_cast <;> constructor <;> linarith

section Units

variable {m m' : Nat} {q q' : ℤ}

theorem abs_writtenUnits_sub_le (places m : Nat) (q : ℤ) :
    |(writtenUnits places m q : ℚ) - m * 2 ^ q * 10 ^ places| ≤ 1 / 2 := by
  have hden := den_scaled_pos m q places
  have hround := abs_roundHalfEven_sub_le (scaled m q places).num hden
  rwa [num_scaled_eq, mul_div_cancel_right₀ _ (Nat.cast_ne_zero.2 hden.ne')] at hround

theorem writtenUnits_congr (h : (m : ℚ) * 2 ^ q = m' * 2 ^ q') (places : Nat) :
    writtenUnits places m q = writtenUnits places m' q' := by
  refine roundHalfEven_congr (den_scaled_pos m q places) (den_scaled_pos m' q' places) ?_
  rw [← Nat.cast_inj (R := ℚ), Nat.cast_mul, Nat.cast_mul, num_scaled_eq, num_scaled_eq, h]
  ring

/-- Whole units that are nearer than half a unit are the ones that are written. -/
theorem writtenUnits_eq_of_near {places n : Nat}
    (h : |(m : ℚ) * 2 ^ q * 10 ^ places - n| < 1 / 2) : writtenUnits places m q = n := by
  have hround := abs_writtenUnits_sub_le places m q
  have hnear : |(((writtenUnits places m q : Nat) : ℤ) - (n : ℤ) : ℤ)| < 1 := by
    have htriangle := abs_sub_le (writtenUnits places m q : ℚ) (m * 2 ^ q * 10 ^ places) n
    have hlt : |(writtenUnits places m q : ℚ) - n| < 1 := by linarith
    exact_mod_cast hlt
  exact_mod_cast sub_eq_zero.1 (Int.abs_lt_one_iff.1 hnear)

/-- The double that the written units are rounded to has the same units. -/
theorem writtenUnits_of_roundsAt {e : ℤ} (hform : DoubleForm m q)
    (h : RoundsAt e (writtenUnits 10 m q / 10 ^ 10) (m' * 2 ^ q')) :
    writtenUnits 10 m' q' = writtenUnits 10 m q := by
  by_cases hstep : e ≤ -34
  · -- half a step is less than half a unit
    refine writtenUnits_eq_of_near ?_
    have hpower : (2 : ℚ) ^ (e - 1) ≤ 2 ^ (-35 : ℤ) :=
      zpow_le_zpow_right₀ one_le_two (by omega)
    have hscale : (m' : ℚ) * 2 ^ q' * 10 ^ 10 - writtenUnits 10 m q =
        (m' * 2 ^ q' - writtenUnits 10 m q / 10 ^ 10) * 10 ^ 10 := by ring
    rw [hscale, abs_mul, abs_of_pos (by norm_num : (0 : ℚ) < 10 ^ 10)]
    calc |(m' : ℚ) * 2 ^ q' - writtenUnits 10 m q / 10 ^ 10| * 10 ^ 10
        ≤ 2 ^ (-35 : ℤ) * 10 ^ 10 :=
          mul_le_mul_of_nonneg_right (h.near.trans hpower) (by norm_num)
      _ < 1 / 2 := by norm_num
  · -- half a unit is less than half a step
    have hpower : (2 : ℚ) ^ (-34 : ℤ) ≤ 2 ^ (e - 1) :=
      zpow_le_zpow_right₀ one_le_two (by omega)
    have hround := abs_writtenUnits_sub_le 10 m q
    have hscale : (m : ℚ) * 2 ^ q - writtenUnits 10 m q / 10 ^ 10 =
        -((writtenUnits 10 m q - m * 2 ^ q * 10 ^ 10) / 10 ^ 10) := by ring
    have hnear : |(m : ℚ) * 2 ^ q - writtenUnits 10 m q / 10 ^ 10| < 2 ^ (e - 1) := by
      rw [hscale, abs_neg, abs_div, abs_of_pos (by norm_num : (0 : ℚ) < 10 ^ 10)]
      calc |(writtenUnits 10 m q : ℚ) - m * 2 ^ q * 10 ^ 10| / 10 ^ 10
          ≤ 1 / 2 / 10 ^ 10 := div_le_div_of_nonneg_right hround (by norm_num)
        _ < 2 ^ (-34 : ℤ) := by norm_num
        _ ≤ 2 ^ (e - 1) := hpower
    exact writtenUnits_congr (h.eq_of_near hform.mantissa hform.exponent hnear) 10

end Units

/-- A finite double that is written, read and written again gives the same text. -/
theorem fixed_of_readFloat_fixed {x v : Float} (hx : x.isFinite = true)
    (hread : readFloat (fixed 10 x) = some v) : fixed 10 v = fixed 10 x := by
  obtain ⟨negative, m, q, hbinary, hle⟩ := ofFloat_of_isFinite hx
  obtain ⟨_, _, _, _, hvalue⟩ := fixed_placed hbinary
  obtain ⟨m', q', e, hmagnitude, hrounds⟩ := exists_ofFloat_writtenUnits hle
  have hunits := writtenUnits_of_roundsAt (doubleForm_ofFloat hbinary).1 hrounds
  have hv : Binary.ofFloat v = .finite negative m' q' := by
    obtain rfl := Option.some.inj (hvalue.symm.trans hread)
    cases negative with
    | false =>
      rw [if_neg Bool.false_ne_true]
      exact hmagnitude
    | true =>
      rw [if_pos rfl]
      exact ofFloat_neg hmagnitude
  rw [fixed_eq hv, fixed_eq hbinary, hunits]

end Decimal

namespace Format

theorem writeReference_congr {v w : Float} {xs ys : List Float}
    (h : Decimal.fixed 10 w = Decimal.fixed 10 v)
    (hs : ys.map (Decimal.fixed 10) = xs.map (Decimal.fixed 10)) :
    writeReference w ys = writeReference v xs := by
  simp only [writeReference, referencePlaces, h, hs]

/-- What is written of finite doubles is read number by number, each as what is written of it says,
and what is read is written as the same text. -/
theorem writeReference_stable {v : Float} {xs : List Float} (hv : v.isFinite = true) (hne : xs ≠ [])
    (hxs : ∀ x ∈ xs, x.isFinite = true) :
    ∃ r, parseReference (writeReference v xs) = .ok r ∧ r.values.length = xs.length ∧
      ReadsBack v r.objective ∧ List.Forall₂ ReadsBack xs r.values ∧
      writeReference r.objective r.values = writeReference v xs := by
  obtain ⟨r, hr, hobjective, hvalues⟩ := exists_parseReference hv hne hxs
  have htexts : List.Forall₂ (fun x y => Decimal.fixed 10 y = Decimal.fixed 10 x) xs r.values :=
    ((List.forall₂_and_left _ _).2 ⟨hxs, hvalues⟩).imp fun _ _ h =>
      Decimal.fixed_of_readFloat_fixed h.1 h.2
  have hmap : r.values.map (Decimal.fixed 10) = xs.map (Decimal.fixed 10) := by
    rw [← List.forall₂_eq_eq_eq, List.forall₂_map_left_iff, List.forall₂_map_right_iff]
    exact htexts.flip
  exact ⟨r, hr, hvalues.length_eq.symm, hobjective, hvalues,
    writeReference_congr (Decimal.fixed_of_readFloat_fixed hv hobjective) hmap⟩

/-- A value that ten places cut down to zero, one that has no places, and a zero with a sign. -/
theorem writeReference_stable_signs :
    (2.5e-11 : Float).isFinite = true ∧ [(1e22 : Float), -0.0, 0.3] ≠ [] ∧
      (∀ x ∈ [(1e22 : Float), -0.0, 0.3], x.isFinite = true) ∧
    ∃ r, parseReference
        "0.0000000000\n10000000000000000000000.0000000000 -0.0000000000 0.3000000000\n" = .ok r ∧
      r.objective = 0 ∧ List.Forall₂ ReadsBack [1e22, -0.0, 0.3] r.values ∧
      writeReference r.objective r.values =
        "0.0000000000\n10000000000000000000000.0000000000 -0.0000000000 0.3000000000\n" := by
  have hfirst : (2.5e-11 : Float).isFinite = true := by decide +kernel
  have hothers : ∀ x ∈ [(1e22 : Float), -0.0, 0.3], x.isFinite = true := by decide +kernel
  have htext : writeReference 2.5e-11 [1e22, -0.0, 0.3] =
      "0.0000000000\n10000000000000000000000.0000000000 -0.0000000000 0.3000000000\n" := by
    decide +kernel
  have hzero : ReadsBack 2.5e-11 0 := by
    rw [ReadsBack]
    decide +kernel
  obtain ⟨r, hr, _, hobjective, hvalues, hagain⟩ :=
    writeReference_stable hfirst (List.cons_ne_nil _ _) hothers
  rw [htext] at hr hagain
  exact ⟨hfirst, List.cons_ne_nil _ _, hothers, r, hr,
    Option.some.inj (hobjective.symm.trans hzero), hvalues, hagain⟩

end Format

end PenaltySimplex
