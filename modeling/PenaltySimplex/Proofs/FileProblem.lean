import PenaltySimplex.Format.Diagnostic
import PenaltySimplex.Format.Web
import PenaltySimplex.Proofs.IterationCap
import PenaltySimplex.Proofs.LineParsing
import PenaltySimplex.Proofs.MatrixForm

/-!
# PenaltySimplex.Proofs.FileProblem

The problem of a file that was read is never refused.

* `Input.IsReading.validate_toProblem`: the numbers of the grammar are finite and its rows have one
  length, which is what the checks of a problem ask for.
* `webSolve_fails_iff`: a page's call fails exactly with the message of the reading.
-/

namespace PenaltySimplex.Format

/-! ## Problems of readings -/

theorem Values.isFinite {line : List Token} {vs : List Float} (h : Values line vs) :
    ∀ v ∈ vs, v.isFinite = true := by
  induction h with
  | nil => exact fun v hv => absurd hv List.not_mem_nil
  | cons hfirst _ ih => exact List.forall_mem_cons.2 ⟨hfirst.finite, ih⟩

theorem ObjectiveLine.isFinite {line : List Token} {s : Sense} {cs : List Float}
    (h : ObjectiveLine line s cs) : ∀ c ∈ cs, c.isFinite = true := by
  cases h with
  | bare values => exact values.isFinite
  | min _ values => exact values.isFinite
  | max _ values => exact values.isFinite

theorem RowLine.isFinite {line : List Token} {cs : List Float} {c : Comparison} {b : Float}
    (h : RowLine line cs c b) : b.isFinite = true ∧ ∀ a ∈ cs, a.isFinite = true := by
  cases h with
  | compared values _ rhs => exact ⟨rhs.finite, values.isFinite⟩
  | bare values rhs => exact ⟨rhs.finite, values.isFinite⟩

theorem InputRow.IsReading.accepted {m : Nat} {lines : Lines} {rows : List InputRow}
    (h : List.Forall₂ (fun line row => InputRow.IsReading m line.1 line.2 row) lines rows) :
    ∀ row ∈ rows, row.coefficients.length = m ∧ row.rhs.isFinite = true ∧
      ∀ a ∈ row.coefficients, a.isFinite = true := by
  induction h with
  | nil => exact fun row hrow => absurd hrow List.not_mem_nil
  | cons hfirst _ ih =>
    exact List.forall_mem_cons.2 ⟨⟨hfirst.length, hfirst.form.isFinite⟩, ih⟩

theorem Input.numVariables_toProblem (x : Input) :
    x.toProblem.numVariables = x.numVariables := by
  simp [toProblem, Problem.numVariables, Problem.ofDimension, Problem.ofNames]

/-- What the grammar says of a file is what the checks of its problem ask for. -/
theorem Input.IsReading.validate_toProblem {lines : Lines} {x : Input} (h : x.IsReading lines) :
    x.toProblem.validate = .ok () := by
  obtain ⟨header, objective, rows, _, _, hobjective, hrows⟩ := h
  rw [Problem.validate_eq_ok_iff, numVariables_toProblem]
  refine ⟨⟨rfl, hobjective.isFinite⟩, ?_⟩
  intro c hc
  obtain ⟨⟨row, i⟩, hrow, rfl⟩ := List.mem_map.1 hc
  have hmem := List.mem_of_getElem? (List.mk_mem_zipIdx_iff_getElem?.1 hrow)
  exact InputRow.IsReading.accepted hrows row hmem

theorem validate_of_parseInput {source : String} {x : Input} (h : parseInput source = .ok x) :
    x.toProblem.validate = .ok () := by
  obtain ⟨left, hok⟩ := ofResult_eq_ok_iff.1 h
  obtain ⟨_, ⟨hreading, _⟩, _⟩ := Parse.reads_input.sound (holds_tokenize source) hok
  exact hreading.validate_toProblem

/-! ## Calls of a page -/

/-- Makes a value of every answer whose count the page can hold exactly: its integers go up to
`2 ^ 53 - 1`. -/
def Encodes {β : Type} (encode : Answer → Except String β) : Prop :=
  ∀ a, a.iterations ≤ 2 ^ 53 - 1 → ∃ v, encode a = .ok v

theorem webSolve_of_error {β : Type} {source : String} {e : ParseError}
    (h : parseInput source = .error e) (encode : Answer → Except String β)
    (started finished : Float) (penalty? : Option Float) :
    (webSolve encode started finished penalty? source).value = .error e.message := by
  rw [webSolve, h]
  rfl

theorem webSolve_of_ok {β : Type} {source : String} {x : Input} (h : parseInput source = .ok x)
    {encode : Answer → Except String β} (hencode : Encodes encode) (started finished : Float)
    (penalty? : Option Float) :
    ∃ v, (webSolve encode started finished penalty? source).value = .ok v := by
  obtain ⟨q, hq⟩ := Problem.exists_toStandardForm (validate_of_parseInput h)
  have hsolve := (webSettings penalty?).solver.value_solve hq
  have hcap := Solver.iterations_solveStandard_le (webSettings penalty?).solver q
    defaultMaxIterations
  obtain ⟨v, hv⟩ := hencode (.ofSolution (Solver.restore x.toProblem
    ((webSettings penalty?).solver.solveStandard q).value) (finished - started))
    (hcap.trans (by decide))
  refine ⟨v, ?_⟩
  rw [webSolve, h, Logged.value_bind, Logged.value_bind, hsolve]
  exact hv

/-- A file that can be read states a problem that passes both checks and that no solver refuses.
So a page's call fails exactly if the file has a message, and with that message. -/
theorem webSolve_fails_iff {β : Type} {encode : Answer → Except String β}
    (hencode : Encodes encode) (source : String) :
    (∀ x, parseInput source = .ok x →
      x.toProblem.validate = .ok () ∧
      (∃ q, x.toProblem.toStandardForm = .ok q ∧ x.toProblem.matrixForm = .ok q) ∧
      ∀ s : Solver Float, ∃ answer, (s.solve x.toProblem).value = .ok answer) ∧
    ∀ (started finished : Float) (penalty? : Option Float),
      ((∃ message, (webSolve encode started finished penalty? source).value = .error message) ↔
        validateInput source ≠ []) ∧
      ∀ message, (webSolve encode started finished penalty? source).value = .error message →
        ∃ d, validateInput source = [d] ∧ d.message = message := by
  constructor
  · intro x hx
    have hvalid := validate_of_parseInput hx
    obtain ⟨q, hq⟩ := Problem.exists_toStandardForm hvalid
    exact ⟨hvalid, ⟨q, hq, (Problem.toStandardForm_eq_matrixForm _).symm.trans hq⟩,
      fun s => ⟨_, s.value_solve hq⟩⟩
  · intro started finished penalty?
    cases hparse : parseInput source with
    | error e =>
      have hdiagnostics : validateInput source = [.ofError source e] := by
        rw [validateInput, hparse]
        rfl
      rw [webSolve_of_error hparse, hdiagnostics]
      refine ⟨iff_of_true ⟨_, rfl⟩ (List.cons_ne_nil _ _), ?_⟩
      rintro message hmessage
      exact ⟨_, rfl, Except.error.inj hmessage⟩
    | ok x =>
      have hdiagnostics : validateInput source = [] := by
        rw [validateInput, hparse]
        rfl
      obtain ⟨v, hv⟩ := webSolve_of_ok hparse hencode started finished penalty?
      rw [hv, hdiagnostics]
      exact ⟨iff_of_false nofun (not_not.2 rfl), nofun⟩

/-- An answer as it is, unless its count is too large. -/
def encodeSafe (a : Answer) : Except String Answer :=
  if a.iterations ≤ 2 ^ 53 - 1 then .ok a
  else .error s!"{a.iterations} can't be represented as a JavaScript number"

def oneRow : String := "1 1\nmax 1\n1 <= 3\n"

def missingRow : String := "1 1\nmax 1\n"

theorem webSolve_fails_iff_missingRow :
    Encodes encodeSafe ∧
    (∃ x, parseInput oneRow = .ok x ∧ x.toProblem.validate = .ok () ∧
      (∃ q, x.toProblem.toStandardForm = .ok q ∧ x.toProblem.matrixForm = .ok q) ∧
      (∃ answer, ((webSettings none).solver.solve x.toProblem).value = .ok answer) ∧
      validateInput oneRow = [] ∧
      ¬ ∃ message, (webSolve encodeSafe 0 1 none oneRow).value = .error message) ∧
    ∃ message d, (webSolve encodeSafe 0 1 none missingRow).value = .error message ∧
      validateInput missingRow = [d] ∧ d.message = message := by
  have hencode : Encodes encodeSafe := fun a ha => ⟨a, if_pos ha⟩
  refine ⟨hencode, ?_, ?_⟩
  · have hempty : validateInput oneRow = [] := by decide +kernel
    obtain ⟨hread, hcalls⟩ := webSolve_fails_iff hencode oneRow
    cases hx : parseInput oneRow with
    | error e =>
      rw [validateInput, hx] at hempty
      cases hempty
    | ok x =>
      obtain ⟨hvalid, hforms, hsolve⟩ := hread x hx
      exact ⟨x, rfl, hvalid, hforms, hsolve _, hempty,
        mt (hcalls 0 1 none).1.1 (not_not.2 hempty)⟩
  · have hnonempty : validateInput missingRow ≠ [] := by decide +kernel
    obtain ⟨_, hcalls⟩ := webSolve_fails_iff hencode missingRow
    obtain ⟨hfails, hmessage⟩ := hcalls 0 1 none
    obtain ⟨message, hvalue⟩ := hfails.2 hnonempty
    obtain ⟨d, hd, htext⟩ := hmessage message hvalue
    exact ⟨message, d, hvalue, hd, htext⟩

end PenaltySimplex.Format
