import Mathlib.Algebra.BigOperators.Intervals
import Mathlib.Algebra.Order.BigOperators.Group.List
import Mathlib.Data.List.GetD
import PenaltySimplex.Proofs.OrderedField

/-!
# PenaltySimplex.Proofs.LinearForm

Linear forms on lists: `form c x` is the sum of the products of coefficients and values.

A list `x` of values is also the function `fun j => x.getD j 0`, and a function `z` gives the list
`point n z` of its first `n` values. `form_eq_sum` and `form_point` go between the two views.
-/

namespace PenaltySimplex
namespace Linear

section Points

variable {α : Type}

/-- The first `n` values of a function. -/
def point (n : Nat) (z : Nat → α) : List α :=
  (List.range n).map z

@[simp] theorem length_point (n : Nat) (z : Nat → α) : (point n z).length = n := by
  simp [point]

theorem mem_point {n : Nat} {z : Nat → α} {v : α} : v ∈ point n z ↔ ∃ j < n, z j = v := by
  simp [point]

theorem getD_point [Zero α] {n j : Nat} (z : Nat → α) (hj : j < n) :
    (point n z).getD j 0 = z j := by
  simp [point, hj]

theorem point_getD [Zero α] {n : Nat} {x : List α} (h : x.length = n) :
    point n (fun j => x.getD j 0) = x := by
  subst h
  refine List.ext_getElem (by simp) ?_
  intro j hj _
  have hj' : j < x.length := by simpa using hj
  simp [point, hj']

/-- A function that keeps zero commutes with reading an entry. -/
theorem getD_map_of_zero [Zero α] {f : α → α} (hf : f 0 = 0) (x : List α) (j : Nat) :
    (x.map f).getD j 0 = f (x.getD j 0) := by
  have hmap := List.getD_map (l := x) (d := (0 : α)) (n := j) f
  rwa [hf] at hmap

theorem getD_nonneg [Preorder α] [Zero α] {x : List α} (hx : ∀ v ∈ x, 0 ≤ v) (j : Nat) :
    0 ≤ x.getD j 0 := by
  rcases Nat.lt_or_ge j x.length with hj | hj
  · rw [List.getD_eq_getElem _ _ hj]
    exact hx _ (List.getElem_mem hj)
  · rw [List.getD_eq_default _ _ hj]

end Points

variable {K : Type} [Field K]

/-- The value at `x` of the linear form with coefficients `c`. -/
def form (c x : List K) : K :=
  (List.zipWith (· * ·) c x).sum

@[simp] theorem form_nil_left (x : List K) : form [] x = 0 := by simp [form]

@[simp] theorem form_nil_right (c : List K) : form c [] = 0 := by simp [form]

@[simp] theorem form_cons (a : K) (c : List K) (b : K) (x : List K) :
    form (a :: c) (b :: x) = a * b + form c x := by
  simp [form]

theorem form_eq_sum {c : List K} {n : Nat} (h : c.length ≤ n) (x : List K) :
    form c x = ∑ j ∈ Finset.range n, c.getD j 0 * x.getD j 0 := by
  induction c generalizing n x with
  | nil => simp
  | cons a c ih =>
    cases n with
    | zero => simp at h
    | succ n =>
      cases x with
      | nil => simp
      | cons b x =>
        have hc : c.length ≤ n := by simpa using h
        rw [form_cons, ih hc x, Finset.sum_range_succ']
        simp [add_comm]

theorem form_point {c : List K} {n : Nat} (h : c.length ≤ n) (z : Nat → K) :
    form c (point n z) = ∑ j ∈ Finset.range n, c.getD j 0 * z j := by
  rw [form_eq_sum h]
  refine Finset.sum_congr rfl ?_
  intro j hj
  rw [getD_point z (Finset.mem_range.1 hj)]

theorem form_append {c₁ x₁ : List K} (h : c₁.length = x₁.length) (c₂ x₂ : List K) :
    form (c₁ ++ c₂) (x₁ ++ x₂) = form c₁ x₁ + form c₂ x₂ := by
  rw [form, List.zipWith_append h, List.sum_append]
  rfl

theorem form_scale (k : K) (c x : List K) : form (c.map (k * ·)) x = k * form c x := by
  induction c generalizing x with
  | nil => simp
  | cons a c ih =>
    cases x with
    | nil => simp
    | cons b x =>
      rw [List.map_cons, form_cons, form_cons, ih]
      ring

theorem form_neg (c x : List K) : form (c.map fun a => -a) x = -form c x := by
  rw [← neg_one_mul, ← form_scale]
  simp only [neg_one_mul]

theorem form_eq_zero {c : List K} (h : ∀ a ∈ c, a = 0) (x : List K) : form c x = 0 := by
  induction c generalizing x with
  | nil => simp
  | cons a c ih =>
    cases x with
    | nil => simp
    | cons b x =>
      rw [form_cons, h a (by simp), ih (fun v hv => h v (by simp [hv])), zero_mul, zero_add]

theorem form_divide (c : List K) [LinearOrder K] (a : K) (x : List K) :
    form (divide c a) x = form c x / a := by
  have hdivide : divide c a = c.map (a⁻¹ * ·) :=
    List.map_congr_left fun b _ => div_eq_inv_mul b a
  rw [hdivide, form_scale, div_eq_inv_mul]

theorem form_comm (c x : List K) : form c x = form x c := by
  rw [form, form, List.zipWith_comm]
  simp only [mul_comm]

variable [LinearOrder K]

theorem dot_eq_form (u v : List K) : dot u v = form u v :=
  dot_eq u v

theorem form_combine (a b : K) {u v : List K} (h : u.length = v.length) (x : List K) :
    form (combine a u b v) x = a * form u x + b * form v x := by
  induction u generalizing v x with
  | nil => cases v <;> simp_all [combine]
  | cons p u ih =>
    cases v with
    | nil => simp at h
    | cons q v =>
      cases x with
      | nil => simp
      | cons y x =>
        show form ((a * p + b * q) :: combine a u b v) (y :: x) = _
        rw [form_cons, form_cons, form_cons, ih (by simpa using h)]
        ring

theorem form_combine_right (a b : K) {u v : List K} (h : u.length = v.length) (c : List K) :
    form c (combine a u b v) = a * form c u + b * form c v := by
  rw [form_comm, form_combine a b h, form_comm u, form_comm v]

variable [IsStrictOrderedRing K]

theorem form_nonneg {c x : List K} (hc : ∀ a ∈ c, 0 ≤ a) (hx : ∀ v ∈ x, 0 ≤ v) :
    0 ≤ form c x := by
  refine List.sum_nonneg ?_
  intro v hv
  obtain ⟨i, hi, rfl⟩ := List.getElem_of_mem hv
  rw [List.getElem_zipWith]
  exact mul_nonneg (hc _ (List.getElem_mem _)) (hx _ (List.getElem_mem _))

theorem combine_nonneg {a b : K} {u v : List K} (ha : 0 ≤ a) (hb : 0 ≤ b)
    (hu : ∀ x ∈ u, 0 ≤ x) (hv : ∀ x ∈ v, 0 ≤ x) : ∀ x ∈ combine a u b v, 0 ≤ x := by
  intro x hx
  rw [combine] at hx
  obtain ⟨i, hi, rfl⟩ := List.getElem_of_mem hx
  rw [List.getElem_zipWith]
  exact add_nonneg (mul_nonneg ha (hu _ (List.getElem_mem _)))
    (mul_nonneg hb (hv _ (List.getElem_mem _)))

end Linear
end PenaltySimplex
