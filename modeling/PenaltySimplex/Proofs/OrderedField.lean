import Mathlib.Algebra.Order.Field.Basic
import Mathlib.Analysis.Real.Sqrt
import PenaltySimplex.Linear.Vector

/-!
# PenaltySimplex.Proofs.OrderedField

Exact readings of the arithmetic. Every ordered field is a `Scalar`, with its own operations and
every value finite; the real numbers have square roots as well. Sums, magnitudes and inner
products of the library are then those of the field.
-/

namespace PenaltySimplex

instance (priority := low) Scalar.ofField {K : Type} [Field K] [LinearOrder K] : Scalar K where
  beq x y := decide (x = y)
  abs x := |x|
  isFinite _ := true
  decidableLT := inferInstance
  decidableLE := inferInstance

-- An operation written on a field is the field's own one, not the one found through `Scalar`.
attribute [instance(300)] Scalar.toZero Scalar.toOne Scalar.toNeg Scalar.toAdd Scalar.toSub
  Scalar.toMul Scalar.toDiv Scalar.toLT Scalar.toLE Scalar.toBEq

noncomputable instance : RootScalar ℝ where
  sqrt := Real.sqrt
  signum x := if x < 0 then -1 else 1

theorem Scalar.foldl_add_eq {M : Type} [AddMonoid M] (a : M) (xs : List M) :
    xs.foldl (· + ·) a = a + xs.sum := by
  induction xs generalizing a with
  | nil => simp
  | cons x xs ih => rw [List.foldl_cons, ih, List.sum_cons, add_assoc]

section Field

variable {K : Type} [Field K] [LinearOrder K]

@[simp] theorem Scalar.abs_eq (x : K) : Scalar.abs x = |x| := rfl

@[simp] theorem Scalar.isFinite_eq (x : K) : Scalar.isFinite x = true := rfl

@[simp] theorem Scalar.sum_eq (xs : List K) : Scalar.sum xs = xs.sum := by
  show xs.foldl (· + ·) (-0 : K) = xs.sum
  rw [foldl_add_eq, neg_zero, zero_add]

namespace Linear

/-- Eight running sums change the order of the additions only. -/
theorem laneSum_eq (s₀ s₁ s₂ s₃ s₄ s₅ s₆ s₇ : K) (ps : List K) :
    laneSum s₀ s₁ s₂ s₃ s₄ s₅ s₆ s₇ ps = s₀ + s₁ + s₂ + s₃ + s₄ + s₅ + s₆ + s₇ + ps.sum := by
  fun_induction laneSum s₀ s₁ s₂ s₃ s₄ s₅ s₆ s₇ ps with
  | case1 s₀ s₁ s₂ s₃ s₄ s₅ s₆ s₇ p₀ p₁ p₂ p₃ p₄ p₅ p₆ p₇ ps ih =>
    rw [ih]
    simp only [List.sum_cons]
    ring
  | case2 s₀ s₁ s₂ s₃ s₄ s₅ s₆ s₇ ps =>
    show ps.foldl (· + ·) (0 + (s₀ + s₄) + (s₁ + s₅) + (s₂ + s₆) + (s₃ + s₇) : K) = _
    rw [Scalar.foldl_add_eq]
    ring

theorem dot_eq (u v : List K) : dot u v = (List.zipWith (· * ·) u v).sum := by
  show laneSum 0 0 0 0 0 0 0 0 _ = _
  rw [laneSum_eq]
  simp

end Linear

end Field

/-- A falling line passes every bound. -/
theorem exists_add_mul_lt {K : Type} [Field K] [LinearOrder K] [IsStrictOrderedRing K]
    (start bound : K) {slope : K} (h : slope < 0) : ∃ a, 0 ≤ a ∧ start + a * slope < bound := by
  refine ⟨max 0 ((bound - 1 - start) / slope), le_max_left _ _, ?_⟩
  have ha := (div_le_iff_of_neg h).1 (le_max_right 0 ((bound - 1 - start) / slope))
  linarith

end PenaltySimplex
