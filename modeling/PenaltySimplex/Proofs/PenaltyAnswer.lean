import PenaltySimplex.Proofs.Threshold
import PenaltySimplex.Solution

/-!
# PenaltySimplex.Proofs.PenaltyAnswer

What the penalty method answers when its settings are fine enough to tell apart all that it
compares (`StandardForm.Answers`).

The judgment fixes status and objective value (`Answers.unique`). It looks at the objective and at
the points that solve the equations, not at the equations themselves (`SameProgram`,
`Answers.congr`).
-/

namespace PenaltySimplex
namespace StandardForm

open Linear

variable {K : Type} [Field K] [LinearOrder K]

/-- Its equations have a solution, of whatever signs, and the objective falls without end along
some direction. -/
def IsImprovable (p : StandardForm K) : Prop :=
  (∃ x, p.Solves x) ∧ ∃ y, p.Improves y

/-- As `unbounded` is answered at the sight of a column, it is the answer to an improvable problem
also if there is no feasible point. -/
inductive Answers (p : StandardForm K) : Solution K → Prop where
  | optimal (values : List K) (v : K) (k : Nat) :
      IsLeast (form p.objective '' {x | p.Feasible x}) v → p.Answers (.optimal values v k)
  | infeasible (k : Nat) : ¬ p.IsFeasible → ¬ p.IsImprovable → p.Answers (.infeasible k)
  | unbounded (k : Nat) : p.IsImprovable → p.Answers (.unbounded k)

variable {p q : StandardForm K}

theorem isFeasible_of_isLeast {v : K} (h : IsLeast (form p.objective '' {x | p.Feasible x}) v) :
    p.IsFeasible := by
  obtain ⟨x, hx, _⟩ := h.1
  exact ⟨x, hx⟩

section Unique

variable [IsStrictOrderedRing K]

theorem not_isImprovable_of_isLeast {v : K}
    (h : IsLeast (form p.objective '' {x | p.Feasible x}) v) : ¬ p.IsImprovable := by
  rintro ⟨_, y, hy⟩
  obtain ⟨x, hx⟩ := isFeasible_of_isLeast h
  obtain ⟨z, hz, hlt⟩ := isUnbounded_of_improves hx hy v
  exact absurd (h.2 ⟨z, hz, rfl⟩) (not_le.2 hlt)

theorem Answers.unique {x y : Solution K} (hx : p.Answers x) (hy : p.Answers y) :
    x.status = y.status ∧ x.objectiveValue = y.objectiveValue := by
  cases hx with
  | optimal _ v _ hv =>
    cases hy with
    | optimal _ w _ hw => exact ⟨rfl, congrArg some (hv.unique hw)⟩
    | infeasible _ hinfeasible _ => exact absurd (isFeasible_of_isLeast hv) hinfeasible
    | unbounded _ himprovable => exact absurd himprovable (not_isImprovable_of_isLeast hv)
  | infeasible _ hinfeasible hnone =>
    cases hy with
    | optimal _ w _ hw => exact absurd (isFeasible_of_isLeast hw) hinfeasible
    | infeasible => exact ⟨rfl, rfl⟩
    | unbounded _ himprovable => exact absurd himprovable hnone
  | unbounded _ himprovable =>
    cases hy with
    | optimal _ w _ hw => exact absurd himprovable (not_isImprovable_of_isLeast hw)
    | infeasible _ _ hnone => exact absurd himprovable hnone
    | unbounded => exact ⟨rfl, rfl⟩

end Unique

/-! ## Problems with the same solutions -/

structure SameProgram (p q : StandardForm K) : Prop where
  objective : q.objective = p.objective
  solves_iff : ∀ x, q.Solves x ↔ p.Solves x

namespace SameProgram

omit [LinearOrder K] in
theorem symm (h : p.SameProgram q) : q.SameProgram p where
  objective := h.objective.symm
  solves_iff x := (h.solves_iff x).symm

variable (h : p.SameProgram q)

include h

omit [LinearOrder K] in
theorem exists_solves_iff : (∃ x, q.Solves x) ↔ ∃ x, p.Solves x :=
  exists_congr h.solves_iff

theorem feasible_iff {x : List K} : q.Feasible x ↔ p.Feasible x := by
  constructor
  · intro hx
    exact ⟨(h.solves_iff x).1 hx.toSolves, hx.nonneg⟩
  · intro hx
    exact ⟨(h.solves_iff x).2 hx.toSolves, hx.nonneg⟩

theorem isFeasible_iff : q.IsFeasible ↔ p.IsFeasible :=
  exists_congr fun _ => h.feasible_iff

/-- A direction keeps the equations level if it leads from a solution to a solution. -/
theorem improves {x y : List K} (hx : p.Solves x) (hy : p.Improves y) : q.Improves y where
  length_eq := by
    rw [hy.length_eq, numColumns, numColumns, h.objective]
  nonneg := hy.nonneg
  level e he := by
    have hstart := ((h.solves_iff x).2 hx).holds e he
    have hmoved := ((h.solves_iff _).2 (hx.moved hy.length_eq hy.level 1)).holds e he
    rw [form_combine_right 1 1 (by rw [hx.length_eq, hy.length_eq]), hstart] at hmoved
    linear_combination hmoved
  falls := by
    rw [h.objective]
    exact hy.falls

theorem isImprovable (hp : p.IsImprovable) : q.IsImprovable := by
  obtain ⟨⟨x, hx⟩, y, hy⟩ := hp
  exact ⟨⟨x, (h.solves_iff x).2 hx⟩, y, h.improves hx hy⟩

theorem isImprovable_iff : q.IsImprovable ↔ p.IsImprovable :=
  ⟨h.symm.isImprovable, h.isImprovable⟩

theorem answers {x : Solution K} (hx : p.Answers x) : q.Answers x := by
  cases hx with
  | optimal values v k hv =>
    refine .optimal values v k ?_
    have hpoints : {x | q.Feasible x} = {x | p.Feasible x} := Set.ext fun _ => h.feasible_iff
    rwa [h.objective, hpoints]
  | infeasible k hinfeasible hnone =>
    exact .infeasible k (mt h.isFeasible_iff.1 hinfeasible) (mt h.isImprovable_iff.1 hnone)
  | unbounded k himprovable => exact .unbounded k (h.isImprovable himprovable)

end SameProgram

end StandardForm
end PenaltySimplex
