import Mathlib.Data.List.Forall2
import PenaltySimplex.Format.Parser
import PenaltySimplex.Proofs.BinaryValue

/-!
# PenaltySimplex.Proofs.FileGrammar

The grammar of input files, line by line and without a parser.

* `contentLines`: the tokens of each line that has more than comments, with the line's number.
* `HeaderLine`, `ObjectiveLine`, `RowLine`: the three forms of a line and what they stand for.
* `Input.IsReading`: the contents of a file that consists of a header, an objective and as many
  rows as the header says.

`Laid` says how the lexer lays tokens out: the end of the file comes last, and the line of a token
counts the newlines before it. On such tokens the first line with content can be taken off
(`Laid.exists_line`).
-/

namespace PenaltySimplex

namespace Format

/-! ## Lines -/

/-- Lines of tokens, with their numbers. -/
abbrev Lines := List (List Token × Nat)

def Token.endsLine (t : Token) : Bool := t.kind == .newline || t.kind == .eof

/-- The tokens without comments. -/
def content (ts : List Token) : List Token := ts.filter fun t => !t.isComment

/-- The lines that have a token, with their numbers, of tokens that start on line `k`. -/
def linesFrom (k : Nat) (ts : List Token) : Lines :=
  ((ts.splitOnP Token.endsLine).zipIdx k).filter fun line => !line.1.isEmpty

/-- The lines of a file that have more than comments, with their numbers. -/
def contentLines (ts : List Token) : Lines := linesFrom 1 (content ts)

/-! ## Forms of lines -/

/-- A number whose text stands for a finite value. -/
structure Token.Means (t : Token) (v : Float) : Prop where
  kind : t.kind = .number
  reads : Decimal.readFloat t.text = some v
  finite : v.isFinite = true

/-- A number that is a natural number of 32 bits. -/
def Token.Counts (t : Token) (n : Nat) : Prop :=
  ∃ v, t.Means v ∧ (Decimal.Binary.ofFloat v).rational? = some (n : ℚ) ∧ n ≤ 2 ^ 32 - 1

/-- A line of numbers and their values. -/
def Values (line : List Token) (vs : List Float) : Prop := List.Forall₂ Token.Means line vs

/-- The numbers of rows and of variables, which are at least one. -/
inductive HeaderLine : List Token → Nat → Nat → Prop where
  | mk {s t : Token} {n m : Nat} (first : s.Counts n) (second : t.Counts m) (pos : 1 ≤ m) :
      HeaderLine [s, t] n m

inductive ObjectiveLine : List Token → Sense → List Float → Prop where
  | bare {line : List Token} {cs : List Float} (values : Values line cs) :
      ObjectiveLine line .minimize cs
  | min {t : Token} {line : List Token} {cs : List Float} (kind : t.kind = .min)
      (values : Values line cs) : ObjectiveLine (t :: line) .minimize cs
  | max {t : Token} {line : List Token} {cs : List Float} (kind : t.kind = .max)
      (values : Values line cs) : ObjectiveLine (t :: line) .maximize cs

def comparisonKind : Comparison → TokenKind
  | .le => .le
  | .ge => .ge
  | .eq => .eq

/-- Coefficients, a comparison and a right-hand side; without a comparison the last number is the
right-hand side of an equality. -/
inductive RowLine : List Token → List Float → Comparison → Float → Prop where
  | compared {line : List Token} {op t : Token} {cs : List Float} {c : Comparison} {b : Float}
      (values : Values line cs) (kind : op.kind = comparisonKind c) (rhs : t.Means b) :
      RowLine (line ++ [op, t]) cs c b
  | bare {line : List Token} {t : Token} {cs : List Float} {b : Float}
      (values : Values line cs) (rhs : t.Means b) : RowLine (line ++ [t]) cs .eq b

/-- A row for `m` variables that stands on line `k`. -/
structure InputRow.IsReading (m : Nat) (line : List Token) (k : Nat) (x : InputRow) : Prop where
  form : RowLine line x.coefficients x.comparison x.rhs
  length : x.coefficients.length = m
  line : x.line = k

/-- A header, an objective and the rows that the header announces, and nothing else. -/
def Input.IsReading (lines : Lines) (x : Input) : Prop :=
  ∃ header objective rows, lines = header :: objective :: rows ∧
    HeaderLine header.1 x.numConstraints x.numVariables ∧
    ObjectiveLine objective.1 x.sense x.objective ∧
    List.Forall₂ (fun line row => InputRow.IsReading x.numVariables line.1 line.2 row) rows x.rows

/-! ## Taking the first line off -/

theorem linesFrom_nil (k : Nat) : linesFrom k [] = [] := rfl

theorem linesFrom_cons {t : Token} (h : t.endsLine = true) (k : Nat) (ts : List Token) :
    linesFrom k (t :: ts) = linesFrom (k + 1) ts := by
  rw [linesFrom, List.splitOnP_cons_eq_if_modifyHead, if_pos h]
  rfl

theorem linesFrom_append {line : List Token} (hline : ∀ t ∈ line, t.endsLine = false)
    (hne : line ≠ []) {t : Token} (ht : t.endsLine = true) (k : Nat) (ts : List Token) :
    linesFrom k (line ++ t :: ts) = (line, k) :: linesFrom (k + 1) ts := by
  rw [linesFrom, List.splitOnP_append_cons line ts ht, List.splitOnP_eq_singleton hline,
    List.singleton_append, List.zipIdx_cons, List.filter_cons_of_pos]
  · rfl
  · rwa [Bool.not_eq_true', List.isEmpty_eq_false_iff]

/-- How the tokens of a text are laid out from line `k` on. -/
inductive Laid : Nat → List Token → Prop where
  | eof {k : Nat} {t : Token} (kind : t.kind = .eof) : Laid k [t]
  | newline {k : Nat} {t : Token} {ts : List Token} (kind : t.kind = .newline)
      (rest : Laid (k + 1) ts) : Laid k (t :: ts)
  | token {k : Nat} {t : Token} {ts : List Token} (inner : t.endsLine = false) (line : t.line = k)
      (rest : Laid k ts) : Laid k (t :: ts)

def Token.isNewline (t : Token) : Bool := t.kind == .newline

/-- The tokens after the empty lines. -/
def skipNewlines (ts : List Token) : List Token := ts.dropWhile Token.isNewline

/-- A line ends: a newline is taken, the end of the file is not. -/
def LineEnd (ts rest : List Token) : Prop :=
  (∃ t, t.kind = .newline ∧ ts = t :: rest) ∨ (Parse.kindOf ts = .eof ∧ rest = ts)

theorem endsLine_of_newline {t : Token} (h : t.kind = .newline) : t.endsLine = true := by
  rw [Token.endsLine, h]
  rfl

theorem endsLine_of_eof {t : Token} (h : t.kind = .eof) : t.endsLine = true := by
  rw [Token.endsLine, h]
  rfl

theorem endsLine_eq_true_iff {t : Token} :
    t.endsLine = true ↔ t.kind = .newline ∨ t.kind = .eof := by
  rw [Token.endsLine, Bool.or_eq_true, beq_iff_eq, beq_iff_eq]

theorem kind_ne_newline {t : Token} (h : t.endsLine = false) : t.kind ≠ .newline := by
  intro hkind
  rw [endsLine_of_newline hkind] at h
  cases h

theorem endsLine_eq_false {t : Token} (hnewline : t.kind ≠ .newline) (heof : t.kind ≠ .eof) :
    t.endsLine = false := by
  rw [Token.endsLine, Bool.or_eq_false_iff]
  exact ⟨beq_eq_false_iff_ne.2 hnewline, beq_eq_false_iff_ne.2 heof⟩

theorem kind_ne_eof {t : Token} (h : t.endsLine = false) : t.kind ≠ .eof := by
  intro hkind
  rw [endsLine_of_eof hkind] at h
  cases h

theorem skipNewlines_newline {t : Token} (h : t.kind = .newline) (ts : List Token) :
    skipNewlines (t :: ts) = skipNewlines ts :=
  List.dropWhile_cons_of_pos (by rw [Token.isNewline, h]; rfl)

theorem skipNewlines_of_ne {t : Token} (h : t.kind ≠ .newline) (ts : List Token) :
    skipNewlines (t :: ts) = t :: ts :=
  List.dropWhile_cons_of_neg fun hnewline => h (beq_iff_eq.1 hnewline)

/-! ## Forms stand on lines -/

theorem Token.Means.endsLine {t : Token} {v : Float} (h : t.Means v) : t.endsLine = false := by
  rw [Token.endsLine, h.kind]
  rfl

theorem endsLine_of_comparison {t : Token} {c : Comparison} (h : t.kind = comparisonKind c) :
    t.endsLine = false := by
  rw [Token.endsLine, h]
  cases c <;> rfl

theorem Values.endsLine {line : List Token} {vs : List Float} (h : Values line vs) :
    ∀ t ∈ line, t.endsLine = false := by
  induction h with
  | nil => exact fun t ht => absurd ht List.not_mem_nil
  | cons hfirst _ ih => exact List.forall_mem_cons.2 ⟨hfirst.endsLine, ih⟩

theorem HeaderLine.one_le {line : List Token} {n m : Nat} (h : HeaderLine line n m) : 1 ≤ m := by
  obtain ⟨_, _, pos⟩ := h
  exact pos

theorem HeaderLine.endsLine {line : List Token} {n m : Nat} (h : HeaderLine line n m) :
    line ≠ [] ∧ ∀ t ∈ line, t.endsLine = false := by
  obtain ⟨⟨v, hv, _⟩, ⟨w, hw, _⟩, _⟩ := h
  exact ⟨List.cons_ne_nil _ _, Values.endsLine (.cons hv (.cons hw .nil))⟩

theorem ObjectiveLine.endsLine {line : List Token} {s : Sense} {cs : List Float}
    (h : ObjectiveLine line s cs) (hne : cs ≠ []) :
    line ≠ [] ∧ ∀ t ∈ line, t.endsLine = false := by
  cases h with
  | bare hvalues =>
    refine ⟨?_, hvalues.endsLine⟩
    rintro rfl
    exact hne (List.forall₂_nil_left_iff.1 hvalues)
  | min kind hvalues =>
    refine ⟨List.cons_ne_nil _ _, List.forall_mem_cons.2 ⟨?_, hvalues.endsLine⟩⟩
    rw [Token.endsLine, kind]
    rfl
  | max kind hvalues =>
    refine ⟨List.cons_ne_nil _ _, List.forall_mem_cons.2 ⟨?_, hvalues.endsLine⟩⟩
    rw [Token.endsLine, kind]
    rfl

theorem RowLine.endsLine {line : List Token} {cs : List Float} {c : Comparison} {b : Float}
    (h : RowLine line cs c b) : line ≠ [] ∧ ∀ t ∈ line, t.endsLine = false := by
  cases h with
  | compared hvalues kind rhs =>
    refine ⟨List.append_ne_nil_of_right_ne_nil _ (List.cons_ne_nil _ _), ?_⟩
    refine List.forall_mem_append.2 ⟨hvalues.endsLine, ?_⟩
    simp only [List.forall_mem_cons, endsLine_of_comparison kind, rhs.endsLine, true_and]
    exact fun t ht => absurd ht List.not_mem_nil
  | bare hvalues rhs =>
    refine ⟨List.append_ne_nil_of_right_ne_nil _ (List.cons_ne_nil _ _), ?_⟩
    exact List.forall_mem_append.2 ⟨hvalues.endsLine, List.forall_mem_singleton.2 rhs.endsLine⟩

namespace Laid

variable {k : Nat} {ts : List Token}

theorem of_inner {t : Token} (h : Laid k (t :: ts)) (hinner : t.endsLine = false) :
    t.line = k ∧ Laid k ts := by
  cases h with
  | eof kind => rw [endsLine_of_eof kind] at hinner; cases hinner
  | newline kind _ => rw [endsLine_of_newline kind] at hinner; cases hinner
  | token _ hk hrest => exact ⟨hk, hrest⟩

theorem append {line rest : List Token} (h : Laid k (line ++ rest))
    (hline : ∀ t ∈ line, t.endsLine = false) : (∀ t ∈ line, t.line = k) ∧ Laid k rest := by
  induction line with
  | nil => exact ⟨fun t ht => absurd ht List.not_mem_nil, h⟩
  | cons t line ih =>
    obtain ⟨hk, hrest⟩ := of_inner h (hline t List.mem_cons_self)
    obtain ⟨hnumbers, hlaid⟩ := ih hrest fun u hu => hline u (List.mem_cons_of_mem t hu)
    exact ⟨List.forall_mem_cons.2 ⟨hk, hnumbers⟩, hlaid⟩

theorem skip (h : Laid k ts) :
    ∃ k', Laid k' (skipNewlines ts) ∧ linesFrom k ts = linesFrom k' (skipNewlines ts) := by
  induction h with
  | @eof k t kind =>
    rw [skipNewlines_of_ne (by rw [kind]; decide)]
    exact ⟨k, .eof kind, rfl⟩
  | newline kind rest ih =>
    rw [skipNewlines_newline kind, linesFrom_cons (endsLine_of_newline kind)]
    exact ih
  | @token k t ts inner line rest ih =>
    rw [skipNewlines_of_ne (kind_ne_newline inner)]
    exact ⟨k, .token inner line rest, rfl⟩

/-- A line that is ended is the first one. -/
theorem lineEnd {line rest left : List Token} (h : Laid k (line ++ rest))
    (hline : ∀ t ∈ line, t.endsLine = false) (hne : line ≠ []) (hend : LineEnd rest left) :
    ∃ k', Laid k' left ∧ linesFrom k (line ++ rest) = (line, k) :: linesFrom k' left := by
  obtain ⟨_, hrest⟩ := h.append hline
  obtain ⟨t, ht, rfl⟩ | ⟨ht, rfl⟩ := hend
  · rw [linesFrom_append hline hne (endsLine_of_newline ht)]
    cases hrest with
    | eof kind => exact nomatch kind.symm.trans ht
    | newline _ hleft => exact ⟨k + 1, hleft, rfl⟩
    | token hinner _ _ => rw [endsLine_of_newline ht] at hinner; cases hinner
  · cases hrest with
    | @eof _ t kind =>
      rw [linesFrom_append hline hne (endsLine_of_eof kind)]
      exact ⟨k, .eof kind, by rw [linesFrom_cons (endsLine_of_eof kind)]⟩
    | newline kind _ => exact nomatch kind.symm.trans ht
    | token hinner _ _ => rw [endsLine_of_eof ht] at hinner; cases hinner

theorem exists_lineEnd (h : Laid k ts) :
    ∃ line rest left, ts = line ++ rest ∧ (∀ t ∈ line, t.endsLine = false) ∧
      LineEnd rest left := by
  induction h with
  | @eof k t kind =>
    exact ⟨[], [t], [t], rfl, fun t ht => absurd ht List.not_mem_nil, Or.inr ⟨kind, rfl⟩⟩
  | @newline k t ts kind _ _ =>
    exact ⟨[], t :: ts, ts, rfl, fun t ht => absurd ht List.not_mem_nil, Or.inl ⟨t, kind, rfl⟩⟩
  | @token k t ts inner _ _ ih =>
    obtain ⟨line, rest, left, rfl, hline, hend⟩ := ih
    exact ⟨t :: line, rest, left, rfl, List.forall_mem_cons.2 ⟨inner, hline⟩, hend⟩

/-- Tokens that start with a token of a line start with the first line. -/
theorem exists_first {t : Token} (h : Laid k (t :: ts)) (hinner : t.endsLine = false) :
    ∃ line rest left k', t :: ts = line ++ rest ∧ line ≠ [] ∧
      (∀ u ∈ line, u.endsLine = false) ∧ LineEnd rest left ∧ Laid k' left ∧
      linesFrom k (t :: ts) = (line, k) :: linesFrom k' left := by
  obtain ⟨line, rest, left, rfl, hline, hend⟩ := (h.of_inner hinner).2.exists_lineEnd
  have hinside : ∀ u ∈ t :: line, u.endsLine = false := List.forall_mem_cons.2 ⟨hinner, hline⟩
  obtain ⟨k', hleft, hfirst⟩ := lineEnd h hinside (List.cons_ne_nil t line) hend
  exact ⟨t :: line, rest, left, k', rfl, List.cons_ne_nil t line, hinside, hend, hleft, hfirst⟩

/-- The first of the lines stands after the empty lines. -/
theorem exists_line {line : List Token} {j : Nat} {others : Lines}
    (h : Laid k ts) (hlines : linesFrom k ts = (line, j) :: others) :
    ∃ rest left k', skipNewlines ts = line ++ rest ∧ line ≠ [] ∧ (∀ t ∈ line, t.line = j) ∧
      LineEnd rest left ∧ Laid k' left ∧ linesFrom k' left = others := by
  induction h with
  | @eof k t kind =>
    rw [linesFrom_cons (endsLine_of_eof kind), linesFrom_nil] at hlines
    cases hlines
  | @newline k t ts kind rest ih =>
    rw [linesFrom_cons (endsLine_of_newline kind)] at hlines
    rw [skipNewlines_newline kind]
    exact ih hlines
  | @token k t ts inner hnumber hrest ih =>
    -- the line starts here, so the induction hypothesis, about a later start, is of no use
    have hlaid : Laid k (t :: ts) := .token inner hnumber hrest
    obtain ⟨line', rest, left, k', heq, hne, hline, hend, hleft, hfirst⟩ := hlaid.exists_first inner
    rw [hfirst] at hlines
    obtain ⟨hpair, rfl⟩ := List.cons.inj hlines
    obtain ⟨rfl, rfl⟩ := Prod.mk.inj hpair
    rw [skipNewlines_of_ne (kind_ne_newline inner)]
    rw [heq] at hlaid
    exact ⟨rest, left, k', heq, hne, (hlaid.append hline).1, hend, hleft, rfl⟩

/-- Without lines only the end of the file is left after the empty ones. -/
theorem linesFrom_eq_nil_iff (h : Laid k ts) :
    linesFrom k ts = [] ↔ Parse.kindOf (skipNewlines ts) = .eof := by
  induction h with
  | @eof k t kind =>
    rw [skipNewlines_of_ne (by rw [kind]; decide), linesFrom_cons (endsLine_of_eof kind)]
    exact iff_of_true rfl kind
  | newline kind rest ih =>
    rw [linesFrom_cons (endsLine_of_newline kind), skipNewlines_newline kind]
    exact ih
  | @token k t ts inner hnumber hrest ih =>
    have hlaid : Laid k (t :: ts) := .token inner hnumber hrest
    obtain ⟨line, rest, left, k', _, _, _, _, _, hfirst⟩ := hlaid.exists_first inner
    rw [hfirst, skipNewlines_of_ne (kind_ne_newline inner)]
    refine iff_of_false (List.cons_ne_nil _ _) ?_
    intro heof
    rw [endsLine_of_eof heof] at inner
    cases inner

end Laid

end Format
end PenaltySimplex
