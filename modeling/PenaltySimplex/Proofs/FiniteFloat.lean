import Mathlib
import PenaltySimplex.Scalar

/-!
# PenaltySimplex.Proofs.FiniteFloat

Which doubles are finite: those whose exponent bits are not all ones. Negation keeps the exponent
bits, so it keeps a double finite.
-/

namespace PenaltySimplex

open Float.Model (Format)
open Float.Model.UnpackedFloat

theorem isFinite_unpack {spec : Format} (b : BitVec spec.numBits) :
    (unpack spec b).isFinite = decide (unpackExponent b ≠ -1#_) := by
  by_cases h : unpackExponent b = -1#_
  · rw [decide_eq_false (not_not.2 h)]
    unfold unpack
    rw [if_pos h]
    split <;> rfl
  · rw [decide_eq_true h]
    unfold unpack
    rw [if_neg h]
    split
    · split <;> rfl
    · rfl

theorem unpackExponent_pack_neg {spec : Format} (u : Float.Model.UnpackedFloat) :
    unpackExponent (pack spec u.neg) = unpackExponent (pack spec u) := by
  cases u with
  | notANumber => rfl
  | infinity s => exact unpackExponent_packComponents.trans unpackExponent_packComponents.symm
  | zero s => exact unpackExponent_packComponents.trans unpackExponent_packComponents.symm
  | finite s m e hm =>
    simp only [neg, pack]
    split
    · exact unpackExponent_packComponents.trans unpackExponent_packComponents.symm
    · split <;> exact unpackExponent_packComponents.trans unpackExponent_packComponents.symm

/-- Negation keeps a double finite. -/
theorem isFinite_neg (x : Float) : (-x).isFinite = x.isFinite := by
  obtain ⟨⟨⟨bits⟩, valid⟩⟩ := x
  show (unpack Format.binary64 (pack Format.binary64 (unpack Format.binary64 bits).neg)).isFinite =
    (unpack Format.binary64 bits).isFinite
  rw [isFinite_unpack, isFinite_unpack, unpackExponent_pack_neg, pack_unpack_of_valid valid]

end PenaltySimplex
