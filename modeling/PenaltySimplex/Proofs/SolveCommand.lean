import PenaltySimplex.Command.Run
import PenaltySimplex.Proofs.Answer
import PenaltySimplex.Proofs.FileProblem
import PenaltySimplex.Proofs.FileTree

/-!
# PenaltySimplex.Proofs.SolveCommand

What `solve` leaves behind: its code, its message and its file.

A run either stops at the first read, parse or write that fails (`Stops`), or completes
(`Completes`): every state of every file system has one of the two (`stops_or_completes`), and each
says how the run ends (`run_of_stops`, `run_of_completes`). The solver itself never stops a run,
since it refuses no problem that a file states. What a run promises is read off the two
(`Contract`), and neither of them looks at the format of the report.

The state changes by the one write of a run, and by all that this write does. A write that fails may
have changed the output file, and what a device was given is not there to be read
(`write_fails_changed`).
-/

namespace PenaltySimplex

namespace Command

open Format

variable {σ ι : Type} {fs : FileSystem σ ι} {s : σ}

/-! ## Reading a file -/

section Files

variable {β : Type} {path : String} {parse : String → Except ParseError β} {x : β}
  {message : String}

/-- A file can be read, and its text parses. -/
def Loads (fs : FileSystem σ ι) (s : σ) (path : String) (parse : String → Except ParseError β)
    (x : β) : Prop :=
  ∃ source, fs.read s path = .ok source ∧ parse source = .ok x

/-- A file cannot be read, or its text does not parse. -/
inductive LoadFails (fs : FileSystem σ ι) (s : σ) (path : String)
    (parse : String → Except ParseError β) : String → Prop where
  | read {e : FileError} (hread : fs.read s path = .error e) :
      LoadFails fs s path parse ("Error reading file: " ++ e.message)
  | parse {source : String} {e : ParseError} (hread : fs.read s path = .ok source)
      (hparse : parse source = .error e) :
      LoadFails fs s path parse s!"Parse error in {path}: {e.message}"

theorem loads_or_fails (fs : FileSystem σ ι) (s : σ) (path : String)
    (parse : String → Except ParseError β) :
    (∃ x, Loads fs s path parse x) ∨ ∃ message, LoadFails fs s path parse message := by
  cases hread : fs.read s path with
  | error e => exact .inr ⟨_, .read hread⟩
  | ok source =>
    cases hparse : parse source with
    | error e => exact .inr ⟨_, .parse hread hparse⟩
    | ok x => exact .inl ⟨x, source, hread, hparse⟩

theorem run_readWith_of_loads (h : Loads fs s path parse x) (next : β → Session) :
    (readWith path parse next).run fs s = (next x).run fs s := by
  obtain ⟨source, hread, hparse⟩ := h
  rw [readWith, Session.run, hread]
  simp only
  rw [hparse]

theorem run_readWith_of_fails (h : LoadFails fs s path parse message) (next : β → Session) :
    (readWith path parse next).run fs s = (⟨1, "", message ++ "\n"⟩, s) := by
  rw [readWith, Session.run]
  cases h with
  | read hread =>
    rw [hread]
    rfl
  | parse hread hparse =>
    rw [hread]
    simp only
    rw [hparse]
    rfl

end Files

/-! ## The course of a run -/

variable {after : σ} {r : SolveRequest} {input : Input} {x : Solution Float}
  {compared : Option Compared} {message path text : String}

/-- The input is read, parsed and solved. -/
structure Reaches (fs : FileSystem σ ι) (s : σ) (r : SolveRequest) (input : Input)
    (x : Solution Float) : Prop where
  loads : Loads fs s r.file parseInput input
  solves : (r.settings.solver.solve input.toProblem).value = .ok x

/-- The reference is read and parsed as well, if one is named. -/
structure Answers (fs : FileSystem σ ι) (s : σ) (r : SolveRequest) (input : Input)
    (x : Solution Float) : Prop extends Reaches fs s r input x where
  expected : ∀ path, r.expected = some path →
    ∃ reference, Loads fs s path parseReference reference

/-- The text of a solution for the output file is there: the solution is optimal. -/
structure HasText (x : Solution Float) (text : String) : Prop where
  status : x.status = .optimal
  text : ∃ values objective, x.values = some values ∧ x.objectiveValue = some objective ∧
    text = writeReference objective values

/-- The read or parse that fails, with its message. -/
inductive StopsLoading (fs : FileSystem σ ι) (s : σ) (r : SolveRequest) : String → Prop where
  | input {message : String} (h : LoadFails fs s r.file parseInput message) :
      StopsLoading fs s r message
  | expected {input : Input} {x : Solution Float} {path message : String}
      (hreaches : Reaches fs s r input x) (hpath : r.expected = some path)
      (h : LoadFails fs s path parseReference message) : StopsLoading fs s r message

/-- The solution is optimal and every read and parse is done: its text goes to the output file. -/
def Writes (fs : FileSystem σ ι) (s : σ) (r : SolveRequest) (path text : String) : Prop :=
  ∃ input x, Answers fs s r input x ∧ HasText x text ∧ r.output = some path

/-- The read, parse or write that fails, with its message. -/
inductive Stops (fs : FileSystem σ ι) (s : σ) (r : SolveRequest) : String → Prop where
  | loading {message : String} (h : StopsLoading fs s r message) : Stops fs s r message
  | writing {path text : String} {e : FileError} (hwrites : Writes fs s r path text)
      (h : (fs.write s path text).1 = .error e) : Stops fs s r s!"Error writing {path}: {e.message}"

/-- The whole run works out: the solution is optimal, it matches the reference if one is named,
and it is written if a path is named. -/
def Succeeds (fs : FileSystem σ ι) (s : σ) (r : SolveRequest) : Prop :=
  ∃ input x, Reaches fs s r input x ∧ x.status = .optimal ∧
    (∀ path, r.expected = some path →
      ∃ reference v, Loads fs s path parseReference reference ∧
        verify x reference r.tolerance = .ok v ∧ v.isMatch = true) ∧
    ∀ path, r.output = some path → ∃ text, HasText x text ∧ (fs.write s path text).1 = .ok ()

/-- What the solution is compared with, and how that comes out. -/
inductive Compares (fs : FileSystem σ ι) (s : σ) (r : SolveRequest) (x : Solution Float) :
    Option Compared → Prop where
  | unnamed (hpath : r.expected = none) : Compares fs s r x none
  | named {path : String} {reference : Reference Float} (hpath : r.expected = some path)
      (h : Loads fs s path parseReference reference) :
      Compares fs s r x (some ⟨reference, verify x reference r.tolerance⟩)

/-- The state that the write of the output file leaves, if there is one. -/
inductive Leaves (fs : FileSystem σ ι) (s : σ) (r : SolveRequest) (x : Solution Float) :
    σ → Prop where
  | unnamed (hpath : r.output = none) : Leaves fs s r x s
  | unsolved (hstatus : x.status ≠ .optimal) : Leaves fs s r x s
  | written {path text : String} (htext : HasText x text) (hpath : r.output = some path)
      (h : (fs.write s path text).1 = .ok ()) : Leaves fs s r x (fs.write s path text).2

/-- Nothing fails: the run gets to its report. -/
structure Completes (fs : FileSystem σ ι) (s : σ) (r : SolveRequest) (input : Input)
    (x : Solution Float) (compared : Option Compared) (after : σ) : Prop
    extends Reaches fs s r input x where
  compares : Compares fs s r x compared
  leaves : Leaves fs s r x after

theorem Reaches.isWhole (h : Reaches fs s r input x) : x.IsWhole input.toProblem.numVariables :=
  r.settings.solver.isWhole_solve h.solves

theorem Reaches.exists_hasText (h : Reaches fs s r input x) (hstatus : x.status = .optimal) :
    ∃ text, HasText x text := by
  cases h.isWhole with
  | optimal values objective _ hvalues hobjective _ =>
    exact ⟨_, hstatus, values, objective, hvalues, hobjective, rfl⟩
  | bare hnot => exact absurd hstatus hnot

theorem Compares.expected (h : Compares fs s r x compared) (hpath : r.expected = some path) :
    ∃ reference, Loads fs s path parseReference reference := by
  cases h with
  | unnamed hnone => cases hnone.symm.trans hpath
  | named hsome hloads =>
    cases hsome.symm.trans hpath
    exact ⟨_, hloads⟩

theorem Completes.answers (h : Completes fs s r input x compared after) :
    Answers fs s r input x :=
  ⟨h.toReaches, fun _ hpath => h.compares.expected hpath⟩

theorem exists_compares (h : Answers fs s r input x) : ∃ compared, Compares fs s r x compared := by
  cases hpath : r.expected with
  | none => exact ⟨_, .unnamed hpath⟩
  | some path =>
    obtain ⟨reference, hloads⟩ := h.expected path hpath
    exact ⟨_, .named hpath hloads⟩

/-! ## How a run ends -/

theorem run_solveSession (h : Reaches fs s r input x) :
    (solveSession r).run fs s =
      (compareWith r x fun compared =>
        writeSolution r x
          (finish r { file := r.file, input, solution := x, compared })).run fs s := by
  rw [solveSession, run_readWith_of_loads h.loads, h.solves]

theorem run_compareWith (h : Compares fs s r x compared) (next : Option Compared → Session) :
    (compareWith r x next).run fs s = (next compared).run fs s := by
  unfold compareWith
  cases h with
  | unnamed hpath => rw [hpath]
  | named hpath hloads =>
    rw [hpath]
    exact run_readWith_of_loads hloads _

theorem exists_writeSolution (htext : HasText x text) (hpath : r.output = some path)
    (next : Session) :
    ∃ answer, writeSolution r x next = .write path text answer ∧ answer (.ok ()) = next ∧
      ∀ e, answer (.error e) = .fail s!"Error writing {path}: {e.message}" := by
  obtain ⟨_, values, objective, hvalues, hobjective, rfl⟩ := htext
  rw [writeSolution, hpath, hvalues, hobjective]
  exact ⟨_, rfl, rfl, fun _ => rfl⟩

theorem run_writeSolution {n : Nat} (hwhole : x.IsWhole n) (h : Leaves fs s r x after)
    (next : Session) : (writeSolution r x next).run fs s = next.run fs after := by
  cases h with
  | unnamed hpath => rw [writeSolution, hpath]
  | unsolved hstatus =>
    cases hwhole with
    | optimal _ _ hoptimal => exact absurd hoptimal hstatus
    | bare _ hvalues =>
      rw [writeSolution, hvalues]
      cases r.output <;> rfl
  | written htext hpath hwrite =>
    obtain ⟨answer, hsession, hnext, _⟩ := exists_writeSolution htext hpath next
    rw [hsession, Session.run, hwrite, hnext]

theorem run_of_completes (h : Completes fs s r input x compared after) :
    ∃ stdout, (solveSession r).run fs s =
      (⟨if x.isOptimal && compared.all Compared.isMatch then 0 else 1, stdout, ""⟩, after) := by
  rw [run_solveSession h.toReaches, run_compareWith h.compares,
    run_writeSolution h.isWhole h.leaves, finish]
  cases r.format with
  | pretty => exact ⟨_, rfl⟩
  | json => exact ⟨_, rfl⟩

theorem run_of_stopsLoading (h : StopsLoading fs s r message) :
    (solveSession r).run fs s = (⟨1, "", message ++ "\n"⟩, s) := by
  cases h with
  | input h => exact run_readWith_of_fails h _
  | expected hreaches hpath h =>
    rw [run_solveSession hreaches, compareWith, hpath]
    exact run_readWith_of_fails h _

/-- A write that fails ends the run in whatever state it leaves. -/
theorem run_of_write_error {e : FileError} (hwrites : Writes fs s r path text)
    (h : (fs.write s path text).1 = .error e) :
    (solveSession r).run fs s =
      (⟨1, "", s!"Error writing {path}: {e.message}" ++ "\n"⟩, (fs.write s path text).2) := by
  obtain ⟨input, x, hanswers, htext, hpath⟩ := hwrites
  obtain ⟨compared, hcompares⟩ := exists_compares hanswers
  rw [run_solveSession hanswers.toReaches, run_compareWith hcompares]
  obtain ⟨answer, hsession, _, hfail⟩ := exists_writeSolution htext hpath
    (finish r { file := r.file, input, solution := x, compared })
  rw [hsession, Session.run, h, hfail]
  rfl

theorem run_of_stops (h : Stops fs s r message) :
    ((solveSession r).run fs s).1 = ⟨1, "", message ++ "\n"⟩ := by
  cases h with
  | loading h => rw [run_of_stopsLoading h]
  | writing hwrites h => rw [run_of_write_error hwrites h]

theorem Writes.output_eq (hwrites : Writes fs s r path text) : r.output = some path := by
  obtain ⟨_, _, _, _, hpath⟩ := hwrites
  exact hpath

theorem Writes.completes (hwrites : Writes fs s r path text)
    (h : (fs.write s path text).1 = .ok ()) :
    ∃ input x compared, Completes fs s r input x compared (fs.write s path text).2 := by
  obtain ⟨input, x, hanswers, htext, hpath⟩ := hwrites
  obtain ⟨compared, hcompares⟩ := exists_compares hanswers
  exact ⟨input, x, compared, hanswers.toReaches, hcompares, .written htext hpath h⟩

/-- The write of the output file is the last that a run does to the files. -/
theorem run_of_writes (hwrites : Writes fs s r path text) :
    ((solveSession r).run fs s).2 = (fs.write s path text).2 := by
  cases h : (fs.write s path text).1 with
  | error e => rw [run_of_write_error hwrites h]
  | ok _ =>
    obtain ⟨input, x, compared, hcompletes⟩ := hwrites.completes h
    obtain ⟨stdout, hrun⟩ := run_of_completes hcompletes
    rw [hrun]

theorem Loads.exists_reaches (h : Loads fs s r.file parseInput input) :
    ∃ x, Reaches fs s r input x := by
  obtain ⟨source, hread, hparse⟩ := h
  obtain ⟨q, hq⟩ := Problem.exists_toStandardForm (validate_of_parseInput hparse)
  exact ⟨_, ⟨source, hread, hparse⟩, r.settings.solver.value_solve hq⟩

theorem Reaches.stops_or_answers (h : Reaches fs s r input x) :
    (∃ message, StopsLoading fs s r message) ∨ Answers fs s r input x := by
  cases hpath : r.expected with
  | none =>
    refine .inr ⟨h, ?_⟩
    intro path hsome
    cases hpath.symm.trans hsome
  | some path =>
    obtain ⟨reference, hloads⟩ | ⟨message, hfails⟩ := loads_or_fails fs s path parseReference
    · refine .inr ⟨h, ?_⟩
      intro other hother
      cases hpath.symm.trans hother
      exact ⟨reference, hloads⟩
    · exact .inl ⟨message, .expected h hpath hfails⟩

theorem Answers.stops_or_leaves (h : Answers fs s r input x) :
    (∃ message, Stops fs s r message) ∨ ∃ after, Leaves fs s r x after := by
  cases hpath : r.output with
  | none => exact .inr ⟨s, .unnamed hpath⟩
  | some path =>
    by_cases hstatus : x.status = .optimal
    · obtain ⟨text, htext⟩ := h.exists_hasText hstatus
      cases hwrite : (fs.write s path text).1 with
      | error e => exact .inl ⟨_, .writing ⟨input, x, h, htext, hpath⟩ hwrite⟩
      | ok _ => exact .inr ⟨_, .written htext hpath hwrite⟩
    · exact .inr ⟨s, .unsolved hstatus⟩

theorem stops_or_completes (fs : FileSystem σ ι) (s : σ) (r : SolveRequest) :
    (∃ message, Stops fs s r message) ∨
      ∃ input x compared after, Completes fs s r input x compared after := by
  obtain ⟨input, hloads⟩ | ⟨message, hfails⟩ := loads_or_fails fs s r.file parseInput
  · obtain ⟨x, hreaches⟩ := hloads.exists_reaches
    obtain ⟨message, hstops⟩ | hanswers := hreaches.stops_or_answers
    · exact .inl ⟨message, .loading hstops⟩
    · obtain hstops | ⟨after, hleaves⟩ := hanswers.stops_or_leaves
      · exact .inl hstops
      · obtain ⟨compared, hcompares⟩ := exists_compares hanswers
        exact .inr ⟨input, x, compared, after, hreaches, hcompares, hleaves⟩
  · exact .inl ⟨message, .loading (.input hfails)⟩

/-! ## What a run promises -/

theorem Succeeds.completes (h : Succeeds fs s r) :
    ∃ input x compared after, Completes fs s r input x compared after ∧
      (x.isOptimal && compared.all Compared.isMatch) = true := by
  obtain ⟨input, x, hreaches, hstatus, hexpected, houtput⟩ := h
  have hoptimal : x.isOptimal = true := by simp [Solution.isOptimal, hstatus]
  obtain ⟨compared, hcompares, hmatch⟩ : ∃ compared, Compares fs s r x compared ∧
      compared.all Compared.isMatch = true := by
    cases hpath : r.expected with
    | none => exact ⟨_, .unnamed hpath, rfl⟩
    | some path =>
      obtain ⟨reference, v, hloads, hverify, hmatch⟩ := hexpected path hpath
      refine ⟨_, .named hpath hloads, ?_⟩
      simpa [Compared.isMatch, hverify] using hmatch
  obtain ⟨after, hleaves⟩ : ∃ after, Leaves fs s r x after := by
    cases hpath : r.output with
    | none => exact ⟨s, .unnamed hpath⟩
    | some path =>
      obtain ⟨text, htext, hwrite⟩ := houtput path hpath
      exact ⟨_, .written htext hpath hwrite⟩
  exact ⟨input, x, compared, after, ⟨hreaches, hcompares, hleaves⟩, by rw [hoptimal, hmatch]; rfl⟩

theorem Completes.succeeds (h : Completes fs s r input x compared after)
    (hcode : (x.isOptimal && compared.all Compared.isMatch) = true) : Succeeds fs s r := by
  obtain ⟨hoptimal, hmatch⟩ := Bool.and_eq_true_iff.1 hcode
  have hstatus : x.status = .optimal := by simpa [Solution.isOptimal] using hoptimal
  refine ⟨input, x, h.toReaches, hstatus, ?_, ?_⟩
  · intro path hpath
    cases h.compares with
    | unnamed hnone => cases hnone.symm.trans hpath
    | @named _ reference hsome hloads =>
      cases hsome.symm.trans hpath
      have hmatch : Compared.isMatch ⟨reference, verify x reference r.tolerance⟩ = true := hmatch
      unfold Compared.isMatch at hmatch
      split at hmatch
      · exact ⟨reference, _, hloads, ‹_›, hmatch⟩
      · cases hmatch
  · intro path hpath
    cases h.leaves with
    | unnamed hnone => cases hnone.symm.trans hpath
    | unsolved hnot => exact absurd hstatus hnot
    | written htext hsome hwrite =>
      cases hsome.symm.trans hpath
      exact ⟨_, htext, hwrite⟩

/-- The code is 0 exactly if the whole run works out, and otherwise 1. -/
theorem code_run_solveSession (fs : FileSystem σ ι) (s : σ) (r : SolveRequest) :
    (((solveSession r).run fs s).1.code = 0 ∨ ((solveSession r).run fs s).1.code = 1) ∧
      (((solveSession r).run fs s).1.code = 0 ↔ Succeeds fs s r) := by
  obtain ⟨message, hstops⟩ | ⟨input, x, compared, after, hcompletes⟩ := stops_or_completes fs s r
  · rw [run_of_stops hstops]
    refine ⟨.inr rfl, iff_of_false Nat.one_ne_zero ?_⟩
    intro hsucceeds
    obtain ⟨_, _, _, _, hcompletes, _⟩ := hsucceeds.completes
    obtain ⟨_, hrun⟩ := run_of_completes hcompletes
    have hexit := run_of_stops hstops
    rw [hrun, Exit.mk.injEq] at hexit
    simpa using hexit.2.2
  · obtain ⟨stdout, hrun⟩ := run_of_completes hcompletes
    rw [hrun]
    by_cases hcode : (x.isOptimal && compared.all Compared.isMatch) = true
    · rw [if_pos hcode]
      exact ⟨.inl rfl, iff_of_true rfl (hcompletes.succeeds hcode)⟩
    · rw [if_neg hcode]
      refine ⟨.inr rfl, iff_of_false Nat.one_ne_zero ?_⟩
      intro hsucceeds
      obtain ⟨_, _, _, _, hother, hsame⟩ := hsucceeds.completes
      obtain ⟨_, hrun'⟩ := run_of_completes hother
      have hcodes := congrArg (fun result => result.1.code) (hrun.symm.trans hrun')
      rw [if_neg hcode, if_pos hsame] at hcodes
      cases hcodes

/-- What a run promises, from how it ends and the state it leaves. -/
structure Contract (fs : FileSystem σ ι) (s : σ) (r : SolveRequest) (e : Exit) (after : σ) :
    Prop where
  code : e.code = 0 ∨ e.code = 1
  succeeds : e.code = 0 ↔ Succeeds fs s r
  /-- A run that stops has one message and no report. -/
  stopped : ∀ message, Stops fs s r message → e = ⟨1, "", message ++ "\n"⟩
  silent : (∀ message, ¬Stops fs s r message) → e.stderr = ""
  /-- A read or parse that fails changes nothing. -/
  unchanged : ∀ message, StopsLoading fs s r message → after = s
  /-- Every optimal solution has a text that can be saved. -/
  text : ∀ input x, Reaches fs s r input x → x.status = .optimal → ∃ text, HasText x text
  /-- The files change by the write of the text, be it done or failed, -/
  written : ∀ path text, Writes fs s r path text → after = (fs.write s path text).2
  unwritten : (∀ path text, ¬Writes fs s r path text) → after = s
  /-- and no file but the output file is touched. -/
  elsewhere : ∀ i, (∀ path, r.output = some path → fs.target? s path ≠ some i) →
    fs.contents? after i = fs.contents? s i
  /-- A file that was written holds the text of the solution. -/
  saved : ∀ path text i, Writes fs s r path text → (fs.write s path text).1 = .ok () →
    fs.target? s path = some i →
      fs.contents? after i = some text.toUTF8 ∧ fs.read after path = .ok text

theorem contract_solveSession (hfs : fs.IsLawful) (s : σ) (r : SolveRequest) :
    Contract fs s r ((solveSession r).run fs s).1 ((solveSession r).run fs s).2 := by
  have hunwritten (hnone : ∀ path text, ¬Writes fs s r path text) :
      ((solveSession r).run fs s).2 = s := by
    obtain ⟨message, hstops⟩ | ⟨input, x, compared, after, h⟩ := stops_or_completes fs s r
    · cases hstops with
      | loading hstops => rw [run_of_stopsLoading hstops]
      | writing hwrites => exact absurd hwrites (hnone _ _)
    · obtain ⟨stdout, hrun⟩ := run_of_completes h
      rw [hrun]
      cases h.leaves with
      | unnamed => rfl
      | unsolved => rfl
      | written htext hpath _ => exact absurd ⟨input, x, h.answers, htext, hpath⟩ (hnone _ _)
  exact {
    code := (code_run_solveSession fs s r).1
    succeeds := (code_run_solveSession fs s r).2
    stopped := fun _ hstops => run_of_stops hstops
    silent := by
      intro hnone
      obtain ⟨message, hstops⟩ | ⟨input, x, compared, after, h⟩ := stops_or_completes fs s r
      · exact absurd hstops (hnone message)
      · obtain ⟨stdout, hrun⟩ := run_of_completes h
        rw [hrun]
    unchanged := by
      intro message hstops
      rw [run_of_stopsLoading hstops]
    text := fun _ _ hreaches => hreaches.exists_hasText
    written := fun _ _ hwrites => run_of_writes hwrites
    unwritten := hunwritten
    elsewhere := by
      intro i hother
      by_cases hwrites : ∃ path text, Writes fs s r path text
      · obtain ⟨path, text, hwrites⟩ := hwrites
        have hpath : r.output = some path := hwrites.output_eq
        rw [run_of_writes hwrites, hfs.contents?_of_ne _ _ _ _ (hother path hpath)]
      · push Not at hwrites
        rw [hunwritten hwrites]
    saved := by
      intro path text i hwrites hok htarget
      rw [run_of_writes hwrites]
      exact ⟨hfs.contents?_target _ _ _ _ htarget hok, hfs.read_write _ _ _ _ htarget hok⟩ }

/-! ## The format of the report -/

theorem Reaches.withFormat (h : Reaches fs s r input x) (format : ReportFormat) :
    Reaches fs s { r with format := format } input x :=
  ⟨h.loads, h.solves⟩

theorem StopsLoading.withFormat (h : StopsLoading fs s r message) (format : ReportFormat) :
    StopsLoading fs s { r with format := format } message := by
  cases h with
  | input h => exact .input h
  | expected hreaches hpath h => exact .expected (hreaches.withFormat format) hpath h

theorem Writes.withFormat (h : Writes fs s r path text) (format : ReportFormat) :
    Writes fs s { r with format := format } path text := by
  obtain ⟨input, x, hanswers, htext, hpath⟩ := h
  exact ⟨input, x, ⟨hanswers.toReaches.withFormat format, hanswers.expected⟩, htext, hpath⟩

theorem Completes.withFormat (h : Completes fs s r input x compared after)
    (format : ReportFormat) :
    Completes fs s { r with format := format } input x compared after where
  toReaches := h.toReaches.withFormat format
  compares := by
    cases h.compares with
    | unnamed hpath => exact .unnamed hpath
    | named hpath hloads => exact .named hpath hloads
  leaves := by
    cases h.leaves with
    | unnamed hpath => exact .unnamed hpath
    | unsolved hstatus => exact .unsolved hstatus
    | written htext hpath hwrite => exact .written htext hpath hwrite

/-- Two runs agree up to what they report on standard output. -/
def AgreeButReport (run other : Exit × σ) : Prop :=
  other.1.code = run.1.code ∧ other.1.stderr = run.1.stderr ∧ other.2 = run.2

theorem agreeButReport_withFormat (fs : FileSystem σ ι) (s : σ) (r : SolveRequest)
    (format : ReportFormat) :
    AgreeButReport ((solveSession r).run fs s)
      ((solveSession { r with format := format }).run fs s) := by
  obtain ⟨message, hstops⟩ | ⟨input, x, compared, after, hcompletes⟩ := stops_or_completes fs s r
  · cases hstops with
    | loading h =>
      rw [run_of_stopsLoading h, run_of_stopsLoading (h.withFormat format)]
      exact ⟨rfl, rfl, rfl⟩
    | writing hwrites h =>
      rw [run_of_write_error hwrites h, run_of_write_error (hwrites.withFormat format) h]
      exact ⟨rfl, rfl, rfl⟩
  · obtain ⟨_, hrun⟩ := run_of_completes hcompletes
    obtain ⟨_, hother⟩ := run_of_completes (hcompletes.withFormat format)
    rw [hrun, hother]
    exact ⟨rfl, rfl, rfl⟩

/-- Every `solve` keeps its contract in every state of every lawful file system: its code is 0
exactly if everything works out and otherwise 1, it stops with one message or completes without one,
and of the files it changes at most the output file, by one write. All of that is the same for a
request that differs in the format of its report. -/
theorem solve_keepsContract (hfs : fs.IsLawful) (s : σ) (r : SolveRequest) :
    Contract fs s r ((solveSession r).run fs s).1 ((solveSession r).run fs s).2 ∧
      ∀ format, AgreeButReport ((solveSession r).run fs s)
        ((solveSession { r with format := format }).run fs s) :=
  ⟨contract_solveSession hfs s r, agreeButReport_withFormat fs s r⟩

def oneRowTree : Directory := ⟨[(["a.lp"], oneRow.toUTF8)]⟩

/-- Solve `a.lp` and write the solution to a path. -/
def oneRowRequest (output : String) : SolveRequest where
  file := "a.lp"
  expected := none
  tolerance := defaultVerifyTolerance
  output := some output
  format := .pretty
  settings := {}

def oneRowText : String := "3.0000000000\n3.0000000000\n"

theorem eq_ok_of_toOption {ε α : Type} {result : Except ε α} {a : α}
    (h : result.toOption = some a) : result = .ok a := by
  cases result with
  | error e => cases h
  | ok b => exact congrArg _ (Option.some.inj h)

theorem exists_answer_oneRow :
    ∃ input x, parseInput oneRow = .ok input ∧
      (({} : Settings).solver.solve input.toProblem).value = .ok x ∧ HasText x oneRowText := by
  have hrun : ((parseInput oneRow).toOption.bind fun input =>
      (({} : Settings).solver.solve input.toProblem).value.toOption.bind fun x =>
        x.values.bind fun values => x.objectiveValue.map fun objective =>
          (x.status, writeReference objective values)) = some (.optimal, oneRowText) := by
    decide +kernel
  simp only [Option.bind_eq_some_iff, Option.map_eq_some_iff, Prod.mk.injEq] at hrun
  obtain ⟨input, hparse, x, hsolve, values, hvalues, objective, hobjective, hstatus, htext⟩ := hrun
  exact ⟨input, x, eq_ok_of_toOption hparse, eq_ok_of_toOption hsolve, hstatus, values, objective,
    hvalues, hobjective, htext.symm⟩

open Directory

theorem writes_oneRow (room : Option Nat) (output : String) :
    Writes (fileSystem room) oneRowTree (oneRowRequest output) output oneRowText := by
  obtain ⟨input, x, hparse, hsolve, htext⟩ := exists_answer_oneRow
  have hread : oneRowTree.read "a.lp" = .ok oneRow := by cbv
  refine ⟨input, x, ⟨⟨⟨oneRow, hread, hparse⟩, hsolve⟩, ?_⟩, htext, rfl⟩
  intro path hpath
  cases hpath

theorem succeeds_oneRow {room : Option Nat} {output : String}
    (h : (oneRowTree.write room output oneRowText).1 = .ok ()) :
    Succeeds (fileSystem room) oneRowTree (oneRowRequest output) := by
  obtain ⟨input, x, hanswers, htext, _⟩ := writes_oneRow room output
  refine ⟨input, x, hanswers.toReaches, htext.status, ?_, ?_⟩
  · intro path hpath
    cases hpath
  · intro path hpath
    cases hpath
    exact ⟨_, htext, h⟩

theorem solve_keepsContract_oneRow :
    (fileSystem none).IsLawful ∧
      ((solveSession (oneRowRequest "x")).runIn oneRowTree).1.code = 0 ∧
      ((solveSession (oneRowRequest "x")).runIn oneRowTree).2.read "x" = .ok oneRowText ∧
      ((solveSession (oneRowRequest "x")).runIn oneRowTree).2.contents? ["a.lp"] =
        some oneRow.toUTF8 ∧
      AgreeButReport ((solveSession (oneRowRequest "x")).runIn oneRowTree)
        ((solveSession { oneRowRequest "x" with format := .json }).runIn oneRowTree) ∧
      ((solveSession (oneRowRequest "x")).runIn ⟨[]⟩).1 =
        ⟨1, "", "Error reading file: No such file or directory (os error 2)\n"⟩ := by
  have hlawful := isLawful_fileSystem none
  obtain ⟨hcontract, hformat⟩ := solve_keepsContract hlawful oneRowTree (oneRowRequest "x")
  obtain ⟨hmissing, _⟩ := solve_keepsContract hlawful ⟨[]⟩ (oneRowRequest "x")
  have htarget : oneRowTree.target? "x" = some ["x"] := by cbv
  have hwrite : (oneRowTree.write none "x" oneRowText).1 = .ok () := by
    rw [write_of_target? htarget]
    rfl
  have hread : Directory.read ⟨[]⟩ "a.lp" = .error .notFound := by cbv
  refine ⟨hlawful, hcontract.succeeds.2 (succeeds_oneRow hwrite),
    (hcontract.saved _ _ _ (writes_oneRow none "x") hwrite htarget).2, ?_, hformat .json,
    hmissing.stopped _ (.loading (.input (.read hread)))⟩
  refine (hcontract.elsewhere ["a.lp"] ?_).trans rfl
  intro path hpath
  cases hpath
  rw [show (fileSystem none).target? oneRowTree "x" = _ from htarget]
  decide

/-- On a disk with room for five bytes the write fails and leaves an output file of five bytes, and
the device that is always empty takes the text and holds none of it. -/
theorem write_fails_changed :
    ((solveSession (oneRowRequest "x")).run (fileSystem (some 5)) oneRowTree).1 =
        ⟨1, "", "Error writing x: No space left on device (os error 28)\n"⟩ ∧
      oneRowTree.contents? ["x"] = none ∧
      ((solveSession (oneRowRequest "x")).run (fileSystem (some 5)) oneRowTree).2.contents? ["x"] =
        some "3.000".toUTF8 ∧
      ((solveSession (oneRowRequest "/dev/null")).runIn oneRowTree).1.code = 0 ∧
      ((solveSession (oneRowRequest "/dev/null")).runIn oneRowTree).2.read "/dev/null" = .ok "" := by
  have htarget : oneRowTree.target? "x" = some ["x"] := by cbv
  have hlong : ¬oneRowText.toUTF8.size ≤ 5 := by decide +kernel
  have hextract : oneRowText.toUTF8.extract 0 5 = "3.000".toUTF8 := by decide +kernel
  have hput : (fileSystem (some 5)).write oneRowTree "x" oneRowText =
      (.error .noSpace, oneRowTree.insert ["x"] "3.000".toUTF8) := by
    show oneRowTree.write (some 5) "x" oneRowText = _
    rw [write_of_target? htarget, put, if_neg hlong, hextract]
  have hslash : endsWithSlash "/dev/null" = false := by cbv
  have hwalk : oneRowTree.walkFrom "/dev/null" (names "/dev/null") = .ok .null := by cbv
  have hnull : (fileSystem none).write oneRowTree "/dev/null" oneRowText = (.ok (), oneRowTree) := by
    show oneRowTree.write none "/dev/null" oneRowText = _
    rw [write, if_neg (by simp [hslash]), hwalk]
  have hfull := run_of_write_error (writes_oneRow (some 5) "x") (congrArg Prod.fst hput)
  have hcode := (code_run_solveSession (fileSystem none) oneRowTree (oneRowRequest "/dev/null")).2
  refine ⟨?_, rfl, ?_, hcode.2 (succeeds_oneRow (congrArg Prod.fst hnull)), ?_⟩
  · rw [hfull]
    rfl
  · rw [hfull, hput, contents?_insert, if_pos rfl]
  · rw [Session.runIn, run_of_writes (writes_oneRow none "/dev/null"), hnull, Directory.read, hwalk]

end Command

end PenaltySimplex
