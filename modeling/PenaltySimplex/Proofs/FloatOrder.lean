import Mathlib
import PenaltySimplex.Proofs.RoundedFloat

/-!
# PenaltySimplex.Proofs.FloatOrder

The order of doubles, and which differences are not numbers.

* `place` maps numbers into a linear order, the two zeros to one place. A comparison holds exactly
  between numbers in the order of their places (`lt_iff`), so on numbers it is transitive and
  total.
* `isNaN_sub_iff`: a difference of doubles is not a number exactly if one of them is none, or both
  are the same infinity. Rounding makes no number into something else (`isNaN_unpack_pack`).
-/

namespace PenaltySimplex

open Float.Model (Format UnpackedFloat)
open Float.Model.UnpackedFloat

/-! ## Order -/

/-- The place of a number in the order: its side of zero, then its exponent and its mantissa. -/
def place : UnpackedFloat → ℤ ×ₗ ℤ ×ₗ ℤ
  | .infinity .negative => toLex (-2, toLex (0, 0))
  | .finite .negative m e _ => toLex (-1, toLex (-e, -m))
  | .finite .positive m e _ => toLex (1, toLex (e, m))
  | .infinity .positive => toLex (2, toLex (0, 0))
  | _ => toLex (0, toLex (0, 0))

theorem unpacked_lt_iff (a b : UnpackedFloat) :
    a.lt b = true ↔ a.isNaN = false ∧ b.isNaN = false ∧ place a < place b := by
  rcases a with ⟨_ | _⟩ | _ | ⟨_ | _⟩ | ⟨_ | _, m₁, e₁, h₁⟩ <;>
    rcases b with ⟨_ | _⟩ | _ | ⟨_ | _⟩ | ⟨_ | _, m₂, e₂, h₂⟩ <;>
    simp [UnpackedFloat.lt, UnpackedFloat.compare, UnpackedFloat.isNaN, place, Prod.Lex.lt_iff]
  case infinity.negative.infinity.positive => rfl
  case finite.positive.finite.positive =>
    rw [Ordering.then_eq_lt, compare_lt_iff_lt, compare_eq_iff_eq, compare_lt_iff_lt]
  case finite.negative.finite.negative =>
    -- below zero the larger exponent and the larger mantissa come first
    rw [Ordering.then_eq_gt, compare_gt_iff_gt, compare_eq_iff_eq, compare_gt_iff_gt]

/-- The place of a double. -/
def floatPlace (x : Float) : ℤ ×ₗ ℤ ×ₗ ℤ := place x.toModel.unpack

theorem lt_iff (x y : Float) :
    x < y ↔ x.isNaN = false ∧ y.isNaN = false ∧ floatPlace x < floatPlace y := by
  show decide (x.toModel < y.toModel) = true ↔ _
  rw [decide_eq_true_iff]
  exact unpacked_lt_iff x.toModel.unpack y.toModel.unpack

/-! ## Numbers stay numbers -/

theorem isNaN_of_isFinite {u : UnpackedFloat} (h : u.isFinite = true) : u.isNaN = false := by
  cases u with
  | notANumber => cases h
  | infinity s => rfl
  | zero s => rfl
  | finite s m e hm => rfl

theorem isNaN_unpack_pack (u : UnpackedFloat) :
    (unpack Format.binary64 (pack Format.binary64 u)).isNaN = u.isNaN := by
  cases u with
  | notANumber => rfl
  | infinity s => cases s <;> rfl
  | zero s => cases s <;> rfl
  | finite s m e hm =>
    by_cases hover : 2 ^ 11 ≤ (e + 1023 + 52).toNat + 1
    · have hpack : pack Format.binary64 (.finite s m e hm) = pack Format.binary64 (.infinity s) :=
        if_pos hover
      rw [hpack]
      cases s <;> rfl
    · exact isNaN_of_isFinite (fits_finite s hm (by omega))

theorem isNaN_abs (x : Float) : x.abs.isNaN = x.isNaN := by
  show (unpack Format.binary64 (pack Format.binary64 x.toModel.unpack.abs)).isNaN =
    x.toModel.unpack.isNaN
  rw [isNaN_unpack_pack]
  cases x.toModel.unpack <;> rfl

theorem isNaN_round (s : Sign) (m : Nat) (e : ℤ) :
    (UnpackedFloat.round Format.binary64 s m e).isNaN = false := by
  simp only [UnpackedFloat.round, roundWithAccuracy]
  split <;> rfl

theorem isNaN_normalize (m e : ℤ) (s : Sign) :
    (UnpackedFloat.normalize Format.binary64 m e s).isNaN = false := by
  unfold UnpackedFloat.normalize
  split
  · exact isNaN_round _ _ _
  · rfl
  · exact isNaN_round _ _ _

theorem isNaN_unpacked_sub_iff (a b : UnpackedFloat) :
    (UnpackedFloat.sub Format.binary64 a b).isNaN = true ↔
      a.isNaN = true ∨ b.isNaN = true ∨ a.isInf = true ∧ a.beq b = true := by
  cases a with
  | notANumber => simp [UnpackedFloat.isNaN, UnpackedFloat.sub]
  | infinity s =>
    cases b with
    | notANumber => simp [UnpackedFloat.isNaN, UnpackedFloat.sub]
    | infinity t => cases s <;> cases t <;> decide
    | zero t => cases s <;> cases t <;> decide
    | finite t m e hm =>
      cases s <;> simp [UnpackedFloat.isNaN, UnpackedFloat.sub, UnpackedFloat.isInf,
        UnpackedFloat.beq, UnpackedFloat.compare]
  | zero s =>
    cases b with
    | notANumber => simp [UnpackedFloat.isNaN, UnpackedFloat.sub]
    | infinity t => simp [UnpackedFloat.isNaN, UnpackedFloat.sub, UnpackedFloat.isInf]
    | zero t => cases s <;> cases t <;> decide
    | finite t m e hm => simp [UnpackedFloat.isNaN, UnpackedFloat.sub, UnpackedFloat.isInf]
  | finite s m e hm =>
    cases b with
    | notANumber => simp [UnpackedFloat.isNaN, UnpackedFloat.sub]
    | infinity t => simp [UnpackedFloat.isNaN, UnpackedFloat.sub, UnpackedFloat.isInf]
    | zero t => simp [UnpackedFloat.isNaN, UnpackedFloat.sub, UnpackedFloat.isInf]
    | finite t m' e' hm' =>
      have hsub : (UnpackedFloat.sub Format.binary64 (.finite s m e hm)
          (.finite t m' e' hm')).isNaN = false := isNaN_normalize _ _ _
      rw [hsub]
      simp [UnpackedFloat.isNaN, UnpackedFloat.isInf]

theorem isNaN_sub_iff (x y : Float) :
    (x - y).isNaN = true ↔ x.isNaN = true ∨ y.isNaN = true ∨ x.isInf = true ∧ (x == y) = true := by
  show (unpack Format.binary64 (pack Format.binary64
    (UnpackedFloat.sub Format.binary64 x.toModel.unpack y.toModel.unpack))).isNaN = true ↔ _
  rw [isNaN_unpack_pack]
  exact isNaN_unpacked_sub_iff x.toModel.unpack y.toModel.unpack

end PenaltySimplex
