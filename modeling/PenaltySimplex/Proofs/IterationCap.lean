import PenaltySimplex.Proofs.Run
import PenaltySimplex.Solver

/-!
# PenaltySimplex.Proofs.IterationCap

The cap on exchanges is fuel: it says where a run is cut off and has no other part in it,
whatever the arithmetic.

* `Dictionary.run_add`: a run is a first part with some of the cap and a run from where that
  stopped with the rest of it.
* `Dictionary.run_append`: the exchanges made before are only carried along.
* `Solver.raise_cap`: a raised cap leaves every verdict as it is and resumes a run that was cut
  off; the answers to problems in equality form change only where the cap was reached.
-/

namespace PenaltySimplex

section Scalar

variable {α : Type} [Scalar α]

namespace Dictionary

theorem run_add (eps : α) (m n : Nat) (d : Dictionary α) (history : List Exchange) :
    d.run eps (m + n) history =
      (d.run eps m history).final.run eps n (d.run eps m history).history := by
  induction m generalizing d history with
  | zero =>
    rw [Nat.zero_add]
    cases hchoose : d.choose eps with
    | optimal => rw [run_optimal hchoose 0]
    | unbounded column => rw [run_unbounded hchoose 0]
    | exchange row column => rw [run_zero hchoose]
  | succ m ih =>
    cases hchoose : d.choose eps with
    | optimal => simp only [run_optimal hchoose]
    | unbounded column => simp only [run_unbounded hchoose]
    | exchange row column =>
      rw [Nat.succ_add, run_succ hchoose, run_succ hchoose]
      exact ih _ _

theorem run_append (eps : α) (cap : Nat) (d : Dictionary α) (later earlier : List Exchange) :
    d.run eps cap (later ++ earlier) =
      { d.run eps cap later with history := (d.run eps cap later).history ++ earlier } := by
  induction cap generalizing d later with
  | zero =>
    cases hchoose : d.choose eps with
    | optimal => simp only [run_optimal hchoose]
    | unbounded column => simp only [run_unbounded hchoose]
    | exchange row column => simp only [run_zero hchoose]
  | succ cap ih =>
    cases hchoose : d.choose eps with
    | optimal => simp only [run_optimal hchoose]
    | unbounded column => simp only [run_unbounded hchoose]
    | exchange row column =>
      rw [run_succ hchoose, run_succ hchoose]
      exact ih _ (_ :: later)

end Dictionary

/-- Where the rule moves, a column can enter and a row bounds it. -/
theorem Dictionary.Moves.exists_leaving {eps : α} {d : Dictionary α} (h : d.Moves eps) :
    ∃ column row, d.tableau.entering? eps = some column ∧
      d.tableau.leaving? eps d.basis column = some row := by
  obtain ⟨row, column, hchoose⟩ := h
  unfold choose at hchoose
  split at hchoose
  · cases hchoose
  · rename_i c hc
    split at hchoose
    · cases hchoose
    · rename_i r hr
      exact ⟨c, r, hc, hr⟩

namespace Outcome.EndsAfter

variable {eps : α} {d : Dictionary α} {cap k : Nat} {o : Outcome α}

theorem run_final (h : o.EndsAfter eps d cap k) (hstop : o.stop ≠ .iterationLimit) (n : Nat) :
    o.final.run eps n o.history = o := by
  have hexplains := h.explains
  obtain ⟨stop, final, history⟩ := o
  cases stop with
  | optimal => exact Dictionary.run_optimal hexplains n history
  | unbounded column => exact Dictionary.run_unbounded hexplains n history
  | iterationLimit => exact absurd rfl hstop

theorem moves_final (h : o.EndsAfter eps d cap k) (hstop : o.stop = .iterationLimit) :
    o.final.Moves eps := by
  have hexplains := h.explains
  rwa [hstop] at hexplains

end Outcome.EndsAfter

omit [Scalar α] in
theorem Outcome.status_eq_iterationLimit {o : Outcome α} :
    o.status = .iterationLimit ↔ o.stop = .iterationLimit := by
  unfold status
  cases o.stop <;> simp [Stop.status]

namespace Tableau

theorem solveFrom_of_le (eps : α) {j k : Nat} (hle : j ≤ k) (t : Tableau α) :
    t.solveFrom eps k =
      (t.solveFrom eps j).final.run eps (k - j) (t.solveFrom eps j).history := by
  have hrun := Dictionary.run_add eps j (k - j) (Dictionary.start t) []
  rwa [Nat.add_sub_cancel' hle] at hrun

theorem solveFrom_eq_of_le {eps : α} {j k : Nat} (hle : j ≤ k) {t : Tableau α}
    (hstop : (t.solveFrom eps j).stop ≠ .iterationLimit) :
    t.solveFrom eps k = t.solveFrom eps j := by
  rw [solveFrom_of_le eps hle]
  exact (endsAfter_solveFrom eps j t).run_final hstop _

/-- A run that was cut off is resumed from where it stopped. -/
theorem solveFrom_resume (eps : α) {j k : Nat} (hle : j ≤ k) (t : Tableau α) :
    t.solveFrom eps k =
      { (t.solveFrom eps j).final.run eps (k - j) [] with
        history := ((t.solveFrom eps j).final.run eps (k - j) []).history ++
          (t.solveFrom eps j).history } := by
  rw [solveFrom_of_le eps hle]
  exact Dictionary.run_append eps (k - j) _ [] _

end Tableau

end Scalar

namespace Solver

variable {α : Type} [RootScalar α]

/-- The same settings with another cap. -/
def withCap (s : Solver α) (cap : Nat) : Solver α := { s with maxIterations := cap }

theorem iterations_conclude (s : Solver α) (p : StandardForm α) (o : Outcome α) :
    (s.conclude p o).value.iterations = o.iterations := by
  unfold conclude
  split
  · rfl
  · rfl
  · split <;> rfl

theorem conclude_iterationLimit {s : Solver α} {p : StandardForm α} {o : Outcome α} :
    (s.conclude p o).value.status = .iterationLimit ↔ o.stop = .iterationLimit := by
  unfold conclude
  split
  · rename_i hstop
    rw [hstop]
    exact ⟨nofun, nofun⟩
  · rename_i hstop
    rw [hstop]
    exact ⟨fun _ => rfl, fun _ => rfl⟩
  · rename_i hstop
    rw [hstop]
    split <;> exact ⟨nofun, nofun⟩

theorem solveStandard_of_infeasible {s : Solver α} {p : StandardForm α} {residual : α}
    (h : (s.analyzer.analyze p).value = .infeasible residual) :
    s.solveStandard p = ⟨.infeasible 0, (s.analyzer.analyze p).events ++ [.rejected]⟩ := by
  show (⟨_, _⟩ : Logged (Event α) (Solution α)) = _
  rw [h]
  rfl

theorem solveStandard_of_feasible {s : Solver α} {p q : StandardForm α} {kept : List Nat}
    (h : (s.analyzer.analyze p).value = .feasible q kept) :
    s.solveStandard p =
      ⟨(s.solveReduced q).value, (s.analyzer.analyze p).events ++ (s.solveReduced q).events⟩ := by
  show (⟨_, _⟩ : Logged (Event α) (Solution α)) = _
  rw [h]

section Reduced

variable (s : Solver α) (q : StandardForm α) {j k : Nat}

theorem iterations_solveReduced_le :
    ((s.withCap j).solveReduced q).value.iterations ≤ j := by
  show ((s.withCap j).conclude q ((s.withCap j).outcome q)).value.iterations ≤ j
  rw [iterations_conclude]
  exact (Tableau.endsAfter_solveFrom _ _ _).le_cap

theorem iterations_solveReduced
    (h : ((s.withCap j).solveReduced q).value.status = .iterationLimit) :
    ((s.withCap j).solveReduced q).value.iterations = j := by
  have hstop := conclude_iterationLimit.1 h
  show ((s.withCap j).conclude q ((s.withCap j).outcome q)).value.iterations = j
  rw [iterations_conclude]
  exact (Tableau.endsAfter_solveFrom _ _ _).limit hstop

theorem solveReduced_withCap (hle : j ≤ k)
    (h : ((s.withCap j).solveReduced q).value.status ≠ .iterationLimit) :
    (s.withCap k).solveReduced q = (s.withCap j).solveReduced q := by
  have hstop := mt conclude_iterationLimit.2 h
  have houtcome : (s.withCap k).outcome q = (s.withCap j).outcome q :=
    Tableau.solveFrom_eq_of_le hle hstop
  unfold solveReduced
  rw [houtcome]
  rfl

end Reduced

theorem iterations_solveStandard_le (s : Solver α) (p : StandardForm α) (j : Nat) :
    ((s.withCap j).solveStandard p).value.iterations ≤ j := by
  cases hanalysis : (s.analyzer.analyze p).value with
  | infeasible residual =>
    rw [solveStandard_of_infeasible (s := s.withCap j) hanalysis]
    exact Nat.zero_le j
  | feasible q kept =>
    rw [solveStandard_of_feasible (s := s.withCap j) hanalysis]
    exact iterations_solveReduced_le s q

/-- A run ends within its cap, and at the cap only where the rule still moves. With a larger cap
a verdict stays as it is and a run that was cut off goes on from its last dictionary. An answer
to an equality form other than the iteration limit does not change either. -/
theorem raise_cap {j k : Nat} (hle : j ≤ k) :
    (∀ (eps : α) (t : Tableau α), 0 < t.numRows → 0 < t.numColumns →
      t.numConstraints ≤ t.numVariables →
      ∃ o o', t.solve eps j = .ok o ∧ t.solve eps k = .ok o' ∧ o.iterations ≤ j ∧
        (o.status ≠ .iterationLimit → o' = o) ∧
        (o.status = .iterationLimit → o.iterations = j ∧
          (∃ column row, o.tableau.entering? eps = some column ∧
            o.tableau.leaving? eps o.basis column = some row) ∧
          ∃ rest, rest = Dictionary.run eps (k - j) ⟨o.tableau, o.basis⟩ [] ∧
            o'.status = rest.status ∧ o'.tableau = rest.tableau ∧ o'.basis = rest.basis ∧
            o'.values = rest.values ∧ o'.iterations = rest.iterations + j)) ∧
    ∀ (s : Solver α) (p : StandardForm α),
      ((s.withCap j).solveStandard p).value.iterations ≤ j ∧
      (((s.withCap j).solveStandard p).value.status = .iterationLimit →
        ((s.withCap j).solveStandard p).value.iterations = j) ∧
      (((s.withCap j).solveStandard p).value.status ≠ .iterationLimit →
        (s.withCap k).solveStandard p = (s.withCap j).solveStandard p) := by
  constructor
  · intro eps t hrows hcolumns hshape
    have hends := Tableau.endsAfter_solveFrom eps j t
    refine ⟨_, _, Tableau.solve_eq_ok_iff.2 ⟨⟨hrows, hcolumns, hshape⟩, rfl⟩,
      Tableau.solve_eq_ok_iff.2 ⟨⟨hrows, hcolumns, hshape⟩, rfl⟩, hends.le_cap, ?_, ?_⟩
    · intro hstatus
      exact Tableau.solveFrom_eq_of_le hle (mt Outcome.status_eq_iterationLimit.2 hstatus)
    · intro hstatus
      have hstop := Outcome.status_eq_iterationLimit.1 hstatus
      have hj := hends.limit hstop
      refine ⟨hj, (hends.moves_final hstop).exists_leaving, _, rfl, ?_⟩
      rw [Tableau.solveFrom_resume eps hle t]
      refine ⟨rfl, rfl, rfl, rfl, ?_⟩
      show (_ ++ _ : List Exchange).length = _
      rw [List.length_append]
      exact congrArg _ hj
  · intro s p
    refine ⟨iterations_solveStandard_le s p j, ?_⟩
    cases hanalysis : (s.analyzer.analyze p).value with
    | infeasible residual =>
      rw [solveStandard_of_infeasible (s := s.withCap j) hanalysis,
        solveStandard_of_infeasible (s := s.withCap k) hanalysis]
      exact ⟨nofun, fun _ => rfl⟩
    | feasible q kept =>
      rw [solveStandard_of_feasible (s := s.withCap j) hanalysis,
        solveStandard_of_feasible (s := s.withCap k) hanalysis]
      refine ⟨iterations_solveReduced s q, ?_⟩
      intro hstatus
      rw [solveReduced_withCap s q hle hstatus]
      rfl

/-- Two products made from two resources; the best plan takes two exchanges. -/
def mixing : Tableau Float :=
  .ofFn 3 5 fun i j => ([
    [-3, -5, 0, 0, 0],
    [1, 1, 1, 0, 4],
    [1, 3, 0, 1, 6]].getD i []).getD j 0

/-- Minimize `-x` subject to `x + s = 1`. -/
def single : StandardForm Float where
  objective := [-1, 0]
  equations := [⟨[1, 1], 1⟩]
  width := by decide

/-- A cap of one cuts the run on `mixing` off, and a second exchange leads to the verdict; the
verdict on `single` takes one exchange, so a cap of ten thousand gives the same answer. -/
theorem raise_cap_mixing :
    (1 ≤ 2 ∧ 0 < mixing.numRows ∧ 0 < mixing.numColumns ∧
      mixing.numConstraints ≤ mixing.numVariables ∧
      ∃ o o', mixing.solve 1e-10 1 = .ok o ∧ mixing.solve 1e-10 2 = .ok o' ∧
        o.status = .iterationLimit ∧ o.iterations = 1 ∧ o'.status = .optimal ∧
        ∃ rest, rest = Dictionary.run 1e-10 1 ⟨o.tableau, o.basis⟩ [] ∧
          rest.status = .optimal ∧ o'.tableau = rest.tableau ∧ o'.values = rest.values ∧
          o'.iterations = rest.iterations + 1) ∧
    1 ≤ 10000 ∧
    (((Settings.solver {}).withCap 1).solveStandard single).value.status = .optimal ∧
    ((Settings.solver {}).withCap 10000).solveStandard single =
      ((Settings.solver {}).withCap 1).solveStandard single := by
  have hrows : 0 < mixing.numRows := by decide
  have hcolumns : 0 < mixing.numColumns := by decide
  have hshape : mixing.numConstraints ≤ mixing.numVariables := by decide
  have hverdict : (((Settings.solver {}).withCap 1).solveStandard single).value.status =
      .optimal := by
    decide +kernel
  obtain ⟨o, o', ho, ho', _, _, hlimit⟩ :=
    (raise_cap (by decide : 1 ≤ 2)).1 1e-10 mixing hrows hcolumns hshape
  have hstatus : o.status = .iterationLimit := by
    rw [(Tableau.solve_eq_ok_iff.1 ho).2]
    decide +kernel
  have hstatus' : o'.status = .optimal := by
    rw [(Tableau.solve_eq_ok_iff.1 ho').2]
    decide +kernel
  obtain ⟨hiterations, _, rest, hrest, hsame, htableau, _, hvalues, hcount⟩ := hlimit hstatus
  have hkept := ((raise_cap (by decide : 1 ≤ 10000)).2 (Settings.solver {}) single).2.2
    (by rw [hverdict]; decide)
  exact ⟨⟨by decide, hrows, hcolumns, hshape, o, o', ho, ho', hstatus, hiterations, hstatus',
    rest, hrest, hsame.symm.trans hstatus', htableau, hvalues, hcount⟩, by decide, hverdict, hkept⟩

end Solver
end PenaltySimplex
