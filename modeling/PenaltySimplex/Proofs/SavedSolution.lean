import PenaltySimplex.Proofs.SolveCommand
import PenaltySimplex.Proofs.WrittenReference

/-!
# PenaltySimplex.Proofs.SavedSolution

Solutions that are written can be read back as long as their numbers are finite
(`Solver.parseReference_saved_iff`). Finite input does not ensure that: an objective value can
overflow (`exists_unreadable`).
-/

namespace PenaltySimplex

open Format

theorem Format.numVariables_pos {source : String} {input : Input}
    (h : parseInput source = .ok input) : 0 < input.numVariables := by
  obtain ⟨header, _, _, _, hheader, _, _⟩ := (parseInput_eq_ok_iff source input).1 h
  exact hheader.one_le

/-- What is written of an optimal solution of an input file is read back, with one value for each
variable, exactly if the objective value and the values are finite. -/
theorem Solver.parseReference_saved_iff (s : Solver Float) {source : String} {input : Input}
    (hparse : parseInput source = .ok input) {x : Solution Float}
    (hsolve : (s.solve input.toProblem).value = .ok x) (hoptimal : x.status = .optimal) :
    ∃ values objective, x.values = some values ∧ x.objectiveValue = some objective ∧
      values.length = input.numVariables ∧
      ((∃ r, parseReference (writeReference objective values) = .ok r ∧
          r.values.length = input.numVariables) ↔
        objective.isFinite = true ∧ ∀ v ∈ values, v.isFinite = true) := by
  cases s.isWhole_solve hsolve with
  | bare hnot => exact absurd hoptimal hnot
  | optimal values objective _ hvalues hobjective hlength =>
    rw [input.numVariables_toProblem] at hlength
    have hne : values ≠ [] := by
      rw [← List.length_pos_iff, hlength]
      exact numVariables_pos hparse
    refine ⟨values, objective, hvalues, hobjective, hlength, ?_⟩
    rw [← hlength]
    exact parseReference_writeReference_iff objective hne

theorem Solver.parseReference_saved_oneRow :
    ∃ input x values objective, parseInput oneRow = .ok input ∧
      ((({} : Settings).solver).solve input.toProblem).value = .ok x ∧ x.status = .optimal ∧
      x.values = some values ∧ x.objectiveValue = some objective ∧
      values.length = input.numVariables ∧
      objective.isFinite = true ∧ ∀ v ∈ values, v.isFinite = true := by
  obtain ⟨input, x, hparse, hsolve, hstatus, written, value, hwritten, hvalue, htext⟩ :=
    Command.exists_answer_oneRow
  obtain ⟨values, objective, hvalues, hobjective, hlength, hiff⟩ :=
    parseReference_saved_iff _ hparse hsolve hstatus
  obtain rfl : written = values := Option.some.inj (hwritten.symm.trans hvalues)
  obtain rfl : value = objective := Option.some.inj (hvalue.symm.trans hobjective)
  have hread : (parseReference Command.oneRowText).toOption.map (·.values.length) =
      (parseInput oneRow).toOption.map Input.numVariables := by decide +kernel
  rw [hparse] at hread
  obtain ⟨r, hr, hcount⟩ := Option.map_eq_some_iff.1 hread
  refine ⟨input, x, written, value, hparse, hsolve, hstatus, hvalues, hobjective, hlength, ?_⟩
  exact hiff.1 ⟨r, htext ▸ Command.eq_ok_of_toOption hr, hcount⟩

def overflowing : String := "1 1\nmax 1e10\n1 <= 1e300\n"

/-- An optimal solution of a file whose numbers are all finite, written and not read back. -/
theorem exists_unreadable :
    ∃ input x values objective, parseInput overflowing = .ok input ∧
      ((({} : Settings).solver).solve input.toProblem).value = .ok x ∧ x.status = .optimal ∧
      x.values = some values ∧ x.objectiveValue = some objective ∧
      ∀ r, parseReference (writeReference objective values) ≠ .ok r := by
  have hrun : ((parseInput overflowing).toOption.bind fun input =>
      ((({} : Settings).solver).solve input.toProblem).value.toOption.bind fun x =>
        x.values.bind fun values => x.objectiveValue.map fun objective =>
          (x.status, values.isEmpty, objective.isFinite)) =
      some (.optimal, false, false) := by decide +kernel
  simp only [Option.bind_eq_some_iff, Option.map_eq_some_iff, Prod.mk.injEq] at hrun
  obtain ⟨input, hparse, x, hsolve, values, hvalues, objective, hobjective, hstatus, hsome,
    hinfinite⟩ := hrun
  refine ⟨input, x, values, objective, Command.eq_ok_of_toOption hparse,
    Command.eq_ok_of_toOption hsolve, hstatus, hvalues, hobjective, ?_⟩
  intro r hr
  obtain ⟨hfinite, _⟩ := isFinite_of_parseReference (List.isEmpty_eq_false_iff.1 hsome) hr
  rw [hfinite] at hinfinite
  cases hinfinite

end PenaltySimplex
