import PenaltySimplex.Proofs.Lexing
import PenaltySimplex.Proofs.Parsing

/-!
# PenaltySimplex.Proofs.LineParsing

Input files are read line by line.

* `YieldsLine`: a parser takes one line of a form, to its end.
* `Reads p R`: from tokens that hold some lines, the parser succeeds exactly where `R` joins the
  lines, its value and the lines left. Parsers of lines compose as their relations do.
* `reads_input`: the parser of input files reads the grammar of `Input.IsReading`.
* `parseInput_eq_ok_iff`: a text is accepted exactly if its tokens are in that grammar.
-/

namespace PenaltySimplex.Format

namespace Parse

/-! ## Lines -/

/-- A line with content: the parser takes it to its end, and its number is that of its first
token. -/
def YieldsLine {β : Type} (p : Parse β) (P : List Token → Nat → β → Prop) : Prop :=
  ∀ ts, Settled ts → Yields ts p fun us x rest =>
    ∃ line mid, us = line ++ mid ∧ LineEnd mid rest ∧ P line (lineOf us) x

def header : Parse (Nat × Nat) := do
  let n ← dimension .constraintCount
  let m ← dimension .variableCount
  if m = 0 then throw (.invalidDimensions .noVariables)
  endLine
  return (n, m)

theorem yieldsLine_header : YieldsLine header fun line _ x => HeaderLine line x.1 x.2 := by
  intro ts _
  refine Yields.congr ((yields_dimension .constraintCount ts).bind fun n _ _ =>
    (yields_dimension .variableCount _).bind fun m _ _ =>
    yields_unless (c := m = 0) nofun
      ((yields_endLine _).bind fun _ _ _ => yields_pure (n, m))) fun x rest => ?_
  constructor
  · rintro ⟨n, us, ⟨s, hs, hus⟩, m, mid, ⟨t, ht, rfl⟩, hm, _, _, hend, rfl, rfl⟩
    exact ⟨[s, t], mid, hus, hend, .mk hs ht (Nat.pos_of_ne_zero hm)⟩
  · obtain ⟨n, m⟩ := x
    rintro ⟨_, mid, hus, hend, @⟨s, t, _, _, hs, ht, hm⟩⟩
    have hne : m ≠ 0 := Nat.pos_iff_ne_zero.1 hm
    exact ⟨n, t :: mid, ⟨s, hs, hus⟩, m, mid, ⟨t, ht, rfl⟩, hne, (), rest, hend, rfl, rfl⟩

def senseAndObjective (m : Nat) : Parse (Sense × List Float) := do
  let sense ← sense
  let objective ← objective m
  endLine
  return (sense, objective)

theorem yieldsLine_senseAndObjective (m : Nat) :
    YieldsLine (senseAndObjective m) fun line _ x =>
      ObjectiveLine line x.1 x.2 ∧ x.2 ≠ [] ∧ x.2.length = m := by
  intro ts hts
  refine Yields.congr ((yields_sense hts).bind fun s _ _ =>
    (yields_objective m _).bind fun cs _ _ =>
    (yields_endLine _).bind fun _ _ _ => yields_pure (s, cs)) fun x rest => ?_
  constructor
  · rintro ⟨s, us, hs, cs, mid, ⟨hnumbers, hne, hlength⟩, _, _, hend, rfl, rfl⟩
    obtain ⟨line, hus, hform⟩ := (objectiveLine_iff hend hne).1 ⟨us, hs, hnumbers⟩
    exact ⟨line, mid, hus, hend, hform, hne, hlength⟩
  · rintro ⟨line, mid, hus, hend, hform, hne, hlength⟩
    obtain ⟨us, hs, hnumbers⟩ := (objectiveLine_iff hend hne).2 ⟨line, hus, hform⟩
    exact ⟨x.1, us, hs, x.2, mid, ⟨hnumbers, hne, hlength⟩, (), rest, hend, rfl, rfl⟩

theorem yieldsLine_row (m : Nat) : YieldsLine (row m) (InputRow.IsReading m) := by
  intro ts hts
  refine yields_get (Yields.congr ((yields_numbers ts).bind fun vs _ hvs =>
    (yields_comparison? (settled_numbers hvs)).bind fun o _ _ =>
    (yields_rightHandSide vs o _).bind fun x _ _ =>
    (yields_checkLength m _ x.1.length _).bind fun _ _ _ =>
    (yields_endLine _).bind fun _ _ _ => yields_pure _) fun x rest => ?_)
  rw [lineOf_content hts]
  constructor
  · rintro ⟨vs, us, hnumbers, o, us', ho, y, mid, hrhs, _, _, ⟨hlength, rfl⟩, _, _, hend, rfl, rfl⟩
    obtain ⟨line, hus, hform⟩ := (rowLine_iff hend).1 ⟨vs, us, hnumbers, o, us', ho, hrhs⟩
    exact ⟨line, _, hus, hend, hform, hlength, rfl⟩
  · rintro ⟨line, mid, hus, hend, hform, hlength, hline⟩
    obtain ⟨vs, us, hnumbers, o, us', ho, hrhs⟩ :=
      (rowLine_iff (x := (x.coefficients, x.comparison, x.rhs)) hend).2 ⟨line, hus, hform⟩
    exact ⟨vs, us, hnumbers, o, us', ho, _, mid, hrhs, (), mid, ⟨hlength, rfl⟩, (), rest, hend,
      by rw [← hline], rfl⟩

/-! ## Lines read in order -/

/-- The tokens are those of the given lines with content. -/
def Holds (ts : List Token) (lines : Lines) : Prop :=
  ∃ k, Laid k (content ts) ∧ linesFrom k (content ts) = lines

/-- What a parser makes of lines. -/
structure Reads {β : Type} (p : Parse β) (R : Lines → β → Lines → Prop) : Prop where
  sound : ∀ {ts lines x left}, Holds ts lines → p ts = .ok x left →
    ∃ others, R lines x others ∧ Holds left others
  complete : ∀ {ts lines x others}, Holds ts lines → R lines x others →
    ∃ left, p ts = .ok x left ∧ Holds left others

section Reads

variable {β γ : Type}

theorem Reads.bind {p : Parse β} {f : β → Parse γ} {R : Lines → β → Lines → Prop}
    {S : β → Lines → γ → Lines → Prop} (hp : Reads p R) (hf : ∀ x, Reads (f x) (S x)) :
    Reads (p >>= f) fun lines y others => ∃ x middle, R lines x middle ∧ S x middle y others where
  sound := by
    intro ts lines y left hts hok
    obtain ⟨x, middle, hx, hy⟩ := bind_eq_ok.1 hok
    obtain ⟨between, hR, hmiddle⟩ := hp.sound hts hx
    obtain ⟨others, hS, hleft⟩ := (hf x).sound hmiddle hy
    exact ⟨others, ⟨x, between, hR, hS⟩, hleft⟩
  complete := by
    rintro ts lines y others hts ⟨x, between, hR, hS⟩
    obtain ⟨middle, hx, hmiddle⟩ := hp.complete hts hR
    obtain ⟨left, hy, hleft⟩ := (hf x).complete hmiddle hS
    exact ⟨left, bind_eq_ok.2 ⟨x, middle, hx, hy⟩, hleft⟩

theorem reads_pure (x : β) : Reads (pure x) fun lines y others => y = x ∧ others = lines where
  sound := by
    intro ts lines y left hts hok
    cases hok
    exact ⟨lines, ⟨rfl, rfl⟩, hts⟩
  complete := by
    rintro ts lines y others hts ⟨rfl, rfl⟩
    exact ⟨ts, rfl, hts⟩

theorem Reads.congr {p : Parse β} {R S : Lines → β → Lines → Prop} (hp : Reads p R)
    (h : ∀ lines x others, R lines x others ↔ S lines x others) : Reads p S where
  sound := by
    intro ts lines x left hts hok
    obtain ⟨others, hR, hleft⟩ := hp.sound hts hok
    exact ⟨others, (h lines x others).1 hR, hleft⟩
  complete hts hS := hp.complete hts ((h _ _ _).2 hS)

theorem skipBlankLines_eq_ok {ts middle : List Token} {x : Unit}
    (h : skipBlankLines ts = .ok x middle) :
    Settled middle ∧ content middle = skipNewlines (content ts) := by
  cases h
  exact ⟨settled_dropBlank ts, content_dropBlank ts⟩

theorem lineOf_append {line : List Token} {k : Nat} (hne : line ≠ [])
    (hline : ∀ t ∈ line, t.line = k) (rest : List Token) : lineOf (line ++ rest) = k := by
  cases line with
  | nil => exact absurd rfl hne
  | cons t line => exact hline t List.mem_cons_self

/-- The first line is read after the blank lines before it. -/
theorem YieldsLine.reads {p : Parse β} {P : List Token → Nat → β → Prop} (hp : YieldsLine p P)
    (hP : ∀ line k x, P line k x → line ≠ [] ∧ ∀ t ∈ line, t.endsLine = false) :
    Reads (skipBlankLines >>= fun _ => p) fun lines x others =>
      ∃ line k, lines = (line, k) :: others ∧ P line k x where
  sound := by
    rintro ts _ x left ⟨k, hlaid, rfl⟩ hok
    obtain ⟨_, middle, hskip, hx⟩ := bind_eq_ok.1 hok
    obtain ⟨hsettled, hcontent⟩ := skipBlankLines_eq_ok hskip
    obtain ⟨line, mid, hus, hend, hform⟩ := (hp middle hsettled x _).1 ⟨left, hx, rfl⟩
    obtain ⟨hne, hline⟩ := hP line _ x hform
    obtain ⟨j, hlaid, hlines⟩ := hlaid.skip
    rw [← hcontent, hus] at hlaid hlines
    obtain ⟨j', hleft, hfirst⟩ := hlaid.lineEnd hline hne hend
    rw [hus, lineOf_append hne (hlaid.append hline).1] at hform
    exact ⟨_, ⟨line, j, hlines.trans hfirst, hform⟩, j', hleft, rfl⟩
  complete := by
    rintro ts _ x others ⟨k, hlaid, rfl⟩ ⟨line, j, hlines, hx⟩
    obtain ⟨rest, left, k', hskip, hne, hnumber, hend, hlaid, rfl⟩ := hlaid.exists_line hlines
    rw [← content_dropBlank] at hskip
    rw [← lineOf_append hne hnumber, ← hskip] at hx
    obtain ⟨left, hok, rfl⟩ :=
      (hp _ (settled_dropBlank ts) x _).2 ⟨line, rest, hskip, hend, hx⟩
    exact ⟨left, bind_eq_ok.2 ⟨(), _, rfl, hok⟩, k', hlaid, rfl⟩

theorem endOfFile_eq_ok_iff {ts left : List Token} {x : Unit} :
    endOfFile ts = .ok x left ↔
      kindOf (ts.dropWhile Token.isBlank) = .eof ∧ left = ts.dropWhile Token.isBlank := by
  have heval : endOfFile ts = (if kindOf (ts.dropWhile Token.isBlank) ≠ .eof then
      refuse .endOfFile else pure ()) (ts.dropWhile Token.isBlank) := rfl
  rw [heval]
  split
  · rename_i h
    exact ⟨nofun, fun heof => absurd heof.1 h⟩
  · rename_i h
    constructor
    · intro hok
      cases hok
      exact ⟨not_not.1 h, rfl⟩
    · rintro ⟨_, rfl⟩
      rfl

theorem reads_endOfFile : Reads endOfFile fun lines _ others => lines = [] ∧ others = [] where
  sound := by
    rintro ts _ x left ⟨k, hlaid, rfl⟩ hok
    obtain ⟨heof, rfl⟩ := endOfFile_eq_ok_iff.1 hok
    rw [← kindOf_content (settled_dropBlank ts), content_dropBlank] at heof
    have hlines := hlaid.linesFrom_eq_nil_iff.2 heof
    obtain ⟨k', hskip, heq⟩ := hlaid.skip
    rw [← content_dropBlank] at hskip heq
    exact ⟨[], ⟨hlines, rfl⟩, k', hskip, heq.symm.trans hlines⟩
  complete := by
    rintro ts _ x others ⟨k, hlaid, rfl⟩ ⟨hlines, rfl⟩
    have heof := hlaid.linesFrom_eq_nil_iff.1 hlines
    rw [← content_dropBlank, kindOf_content (settled_dropBlank ts)] at heof
    obtain ⟨k', hskip, heq⟩ := hlaid.skip
    rw [← content_dropBlank] at hskip heq
    exact ⟨_, endOfFile_eq_ok_iff.2 ⟨heof, rfl⟩, k', hskip, heq.symm.trans hlines⟩

end Reads

theorem reads_row (m : Nat) :
    Reads (skipBlankLines >>= fun _ => row m) fun lines x others =>
      ∃ line k, lines = (line, k) :: others ∧ InputRow.IsReading m line k x :=
  (yieldsLine_row m).reads fun _ _ _ h => h.form.endsLine

theorem rows_succ (m n : Nat) :
    rows m (n + 1) = (skipBlankLines >>= fun _ => row m) >>= fun first =>
      rows m n >>= fun others => pure (first :: others) := by
  rw [rows, bind_assoc]

theorem reads_rows (m n : Nat) :
    Reads (rows m n) fun lines xs others => ∃ mine, lines = mine ++ others ∧ xs.length = n ∧
      List.Forall₂ (fun line row => InputRow.IsReading m line.1 line.2 row) mine xs := by
  induction n with
  | zero =>
    refine (reads_pure []).congr fun lines xs others => ?_
    constructor
    · rintro ⟨rfl, rfl⟩
      exact ⟨[], rfl, rfl, .nil⟩
    · rintro ⟨mine, rfl, hlength, hmine⟩
      obtain rfl := List.length_eq_zero_iff.1 hlength
      obtain rfl := List.forall₂_nil_right_iff.1 hmine
      exact ⟨rfl, rfl⟩
  | succ n ih =>
    rw [rows_succ]
    refine ((reads_row m).bind fun first => ih.bind fun others =>
      reads_pure (first :: others)).congr fun lines xs others => ?_
    constructor
    · rintro ⟨x, _, ⟨line, k, rfl, hx⟩, ys, _, ⟨mine, rfl, hlength, hmine⟩, rfl, rfl⟩
      exact ⟨(line, k) :: mine, rfl, congrArg (· + 1) hlength, .cons hx hmine⟩
    · rintro ⟨mine, rfl, hlength, hmine⟩
      cases hmine with
      | nil => cases hlength
      | @cons line x mine ys hx hmine =>
        exact ⟨x, _, ⟨line.1, line.2, rfl, hx⟩, ys, _,
          ⟨mine, rfl, Nat.succ.inj hlength, hmine⟩, rfl, rfl⟩

theorem input_eq :
    input = (skipBlankLines >>= fun _ => header) >>= fun x =>
      (skipBlankLines >>= fun _ => senseAndObjective x.2) >>= fun y =>
        rows x.2 x.1 >>= fun xs => endOfFile >>= fun _ =>
          pure { sense := y.1, objective := y.2, rows := xs } := by
  simp only [input, header, senseAndObjective, bind_assoc, pure_bind]
  -- the refusal of a header without variables is bound before or after the rest
  congr 1; funext _; congr 1; funext n; congr 1; funext m
  split
  · simp only [bind_assoc, pure_bind]
  · simp only [bind_assoc, pure_bind]

theorem reads_input : Reads input fun lines x others => Input.IsReading lines x ∧ others = [] := by
  rw [input_eq]
  refine ((yieldsLine_header.reads fun _ _ _ h => h.endsLine).bind fun x =>
    ((yieldsLine_senseAndObjective x.2).reads fun _ _ _ h => h.1.endsLine h.2.1).bind fun y =>
    (reads_rows x.2 x.1).bind fun xs => reads_endOfFile.bind fun _ => reads_pure _).congr
      fun lines x others => ?_
  constructor
  · rintro ⟨⟨n, m⟩, _, ⟨header, j, rfl, hheader⟩, ⟨s, cs⟩, _,
      ⟨objective, k, rfl, hobjective, _, hm⟩, xs, _, ⟨mine, rfl, hn, hmine⟩, _, _, ⟨rfl, rfl⟩,
      rfl, rfl⟩
    obtain rfl : cs.length = m := hm
    obtain rfl : xs.length = n := hn
    rw [List.append_nil]
    exact ⟨⟨(header, j), (objective, k), mine, rfl, hheader, hobjective, hmine⟩, rfl⟩
  · rintro ⟨⟨header, objective, mine, rfl, hheader, hobjective, hmine⟩, rfl⟩
    have hne : x.objective ≠ [] := List.ne_nil_of_length_pos hheader.one_le
    exact ⟨(x.numConstraints, x.numVariables), _, ⟨header.1, header.2, rfl, hheader⟩,
      (x.sense, x.objective), _, ⟨objective.1, objective.2, rfl, hobjective, hne, rfl⟩, x.rows, [],
      ⟨mine, (List.append_nil mine).symm, rfl, hmine⟩, (), [], ⟨rfl, rfl⟩, rfl, rfl⟩

end Parse

/-! ## Texts -/

/-- The tokens of a text lie on the lines that they count. -/
theorem Division.laid {source before : List Char} {ts : List Token}
    (h : Division source before ts) : Laid (lineAfter before) (content ts) := by
  induction h with
  | stop hgap hend => exact .eof rfl
  | @token before gap l ts hgap _ hkind hlines _ ih =>
    have hline : lineAfter (before ++ gap ++ l.text) =
        lineAfter before + if l.kind = .newline then 1 else 0 := by
      rw [lineAfter, List.count_append, hlines.count, ← Nat.add_assoc, ← lineAfter,
        lineAfter_append_gap hgap]
    rw [hline] at ih
    by_cases hnewline : l.kind = .newline
    · rw [if_pos hnewline] at ih
      rw [Parse.content_cons]
      · exact .newline hnewline ih
      · rw [Token.isComment, Lexeme.tokenAfter, hnewline]
        rfl
    · rw [if_neg hnewline, Nat.add_zero] at ih
      cases hcomment : (l.tokenAfter (before ++ gap)).isComment with
      | true => rwa [Parse.content_cons_comment hcomment]
      | false =>
        rw [Parse.content_cons hcomment]
        exact .token (endsLine_eq_false hnewline hkind) (lineAfter_append_gap hgap before) ih

/-- The tokens of a text start on the line where it is cut, and so does their content. -/
theorem Division.lineOf_tokens {source before : List Char} {ts : List Token}
    (h : Division source before ts) : Parse.lineOf ts = lineAfter before := by
  cases h with
  | stop hgap _ => exact lineAfter_append_gap hgap before
  | token hgap _ _ _ _ => exact lineAfter_append_gap hgap before

theorem Division.lineOf_content {source before : List Char} {ts : List Token}
    (h : Division source before ts) : Parse.lineOf (content ts) = lineAfter before := by
  induction h with
  | stop hgap _ => exact lineAfter_append_gap hgap _
  | @token before gap l ts hgap _ _ hlines _ ih =>
    cases hcomment : (l.tokenAfter (before ++ gap)).isComment with
    | true =>
      -- a comment is followed on its own line
      have hkind : l.kind = .comment := beq_iff_eq.1 hcomment
      have hcount : l.text.count '\n' = 0 := by
        rw [hlines.count, if_neg (by rw [hkind]; decide)]
      rw [Parse.content_cons_comment hcomment, ih, lineAfter, List.count_append, hcount]
      exact lineAfter_append_gap hgap before
    | false =>
      rw [Parse.content_cons hcomment]
      exact lineAfter_append_gap hgap before

theorem holds_tokenize (source : String) :
    Parse.Holds (tokenize source) (contentLines (tokenize source)) :=
  ⟨1, (division_tokenize source).laid, rfl⟩

theorem ofResult_eq_ok_iff {β : Type} {r : EStateM.Result ParseError (List Token) β} {x : β} :
    ofResult r = .ok x ↔ ∃ left, r = .ok x left := by
  cases r with
  | ok y left => simp [ofResult]
  | error e left => simp [ofResult]

theorem ofResult_eq_error_iff {β : Type} {r : EStateM.Result ParseError (List Token) β}
    {e : ParseError} : ofResult r = .error e ↔ ∃ left, r = .error e left := by
  cases r with
  | ok y left => simp [ofResult]
  | error e left => simp [ofResult]

/-- A text is accepted exactly if it is a header, an objective and the announced rows, and then
the contents are what its lines stand for. -/
theorem parseInput_eq_ok_iff (source : String) (x : Input) :
    parseInput source = .ok x ↔ Input.IsReading (contentLines (tokenize source)) x := by
  rw [parseInput, ofResult_eq_ok_iff]
  constructor
  · rintro ⟨left, hok⟩
    obtain ⟨_, ⟨hreading, _⟩, _⟩ := Parse.reads_input.sound (holds_tokenize source) hok
    exact hreading
  · intro hreading
    obtain ⟨left, hok, _⟩ := Parse.reads_input.complete (holds_tokenize source) ⟨hreading, rfl⟩
    exact ⟨left, hok⟩

example :
    (parseInput "# caps\n\n2 1\nmax 3\n1 <= 2 # first\n\n1 4\n").toOption =
      some ⟨.maximize, [3], [⟨[1], .le, 2, 5⟩, ⟨[1], .eq, 4, 7⟩]⟩ := by
  decide +kernel

end PenaltySimplex.Format
