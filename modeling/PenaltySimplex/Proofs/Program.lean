import PenaltySimplex.Proofs.LinearForm
import PenaltySimplex.StandardForm

/-!
# PenaltySimplex.Proofs.Program

What the answers to a linear program mean: feasible and optimal points of a general problem, and
of a problem in equality form its feasible points, unboundedness and the directions along which
the objective falls without end.
-/

namespace PenaltySimplex

open Linear

variable {K : Type} [Field K] [LinearOrder K]

def Constraint.Holds (c : Constraint K) (x : List K) : Prop :=
  match c.comparison with
  | .le => form c.coefficients x ≤ c.rhs
  | .ge => c.rhs ≤ form c.coefficients x
  | .eq => form c.coefficients x = c.rhs

/-- The first value is at least as good as the second. -/
def Sense.AtLeastAsGood (s : Sense) (a b : K) : Prop :=
  match s with
  | .minimize => a ≤ b
  | .maximize => b ≤ a

namespace Problem

structure Feasible (p : Problem K) (x : List K) : Prop where
  length_eq : x.length = p.numVariables
  nonneg : ∀ v ∈ x, 0 ≤ v
  holds : ∀ c ∈ p.constraints, c.Holds x

structure Optimal (p : Problem K) (x : List K) : Prop where
  feasible : p.Feasible x
  best : ∀ y, p.Feasible y → p.sense.AtLeastAsGood (form p.objective x) (form p.objective y)

end Problem

namespace StandardForm

structure Solves (p : StandardForm K) (x : List K) : Prop where
  length_eq : x.length = p.numColumns
  holds : ∀ e ∈ p.equations, form e.coefficients x = e.rhs

structure Feasible (p : StandardForm K) (x : List K) : Prop extends p.Solves x where
  nonneg : ∀ v ∈ x, 0 ≤ v

def IsFeasible (p : StandardForm K) : Prop :=
  ∃ x, p.Feasible x

/-- Feasible points have objective values below every bound. -/
def IsUnbounded (p : StandardForm K) : Prop :=
  ∀ bound, ∃ x, p.Feasible x ∧ form p.objective x < bound

/-- `A y = 0`, `y ≥ 0` and `c · y < 0`. -/
structure Improves (p : StandardForm K) (y : List K) : Prop where
  length_eq : y.length = p.numColumns
  nonneg : ∀ v ∈ y, 0 ≤ v
  level : ∀ e ∈ p.equations, form e.coefficients y = 0
  falls : form p.objective y < 0

variable {p : StandardForm K}

theorem IsUnbounded.isFeasible (h : p.IsUnbounded) : p.IsFeasible := by
  obtain ⟨x, hx, _⟩ := h 0
  exact ⟨x, hx⟩

theorem Solves.moved {x y : List K} (hx : p.Solves x) (hy : y.length = p.numColumns)
    (hlevel : ∀ e ∈ p.equations, form e.coefficients y = 0) (a : K) :
    p.Solves (combine 1 x a y) where
  length_eq := length_combine_eq hx.length_eq hy
  holds e he := by
    rw [form_combine_right 1 a (by rw [hx.length_eq, hy]), hx.holds e he, hlevel e he]
    ring

variable [IsStrictOrderedRing K]

theorem Feasible.moved {x y : List K} (hx : p.Feasible x) (hy : y.length = p.numColumns)
    (hlevel : ∀ e ∈ p.equations, form e.coefficients y = 0) (hy₀ : ∀ v ∈ y, 0 ≤ v) {a : K}
    (ha : 0 ≤ a) : p.Feasible (combine 1 x a y) where
  toSolves := hx.toSolves.moved hy hlevel a
  nonneg := combine_nonneg zero_le_one ha hx.nonneg hy₀

theorem isUnbounded_of_improves {x y : List K} (hx : p.Feasible x) (hy : p.Improves y) :
    p.IsUnbounded := by
  intro bound
  obtain ⟨a, ha, hlt⟩ := exists_add_mul_lt (form p.objective x) bound hy.falls
  refine ⟨_, hx.moved hy.length_eq hy.level hy.nonneg ha, ?_⟩
  rw [form_combine_right 1 a (by rw [hx.length_eq, hy.length_eq]), one_mul]
  exact hlt

end StandardForm
end PenaltySimplex
