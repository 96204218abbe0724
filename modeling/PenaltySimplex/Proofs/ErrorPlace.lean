import PenaltySimplex.Format.Diagnostic
import PenaltySimplex.Proofs.BlankLines
import PenaltySimplex.Proofs.RowLengths

/-!
# PenaltySimplex.Proofs.ErrorPlace

What errors and diagnostics say of a place is true of the text.

* `PlacedIn source e`: a token of the text is there that the error describes, or a line whose length
  is refused.
* `Span.LiesIn`: a span goes from one place between characters to a later one.
* `Diagnostic.Tells`: a diagnostic has the line and message of an error, and a span of the text.
* `parse_error_place`: the errors of both parsers are placed in the text, no line is the zeroth, and
  each gives exactly one diagnostic, which tells of it.
-/

namespace PenaltySimplex.Format

/-- A span marks a part of a text. -/
def Span.Marks (span : Span) (source before text : String) : Prop :=
  ∃ after, source = before ++ text ++ after ∧
    span = ⟨before.utf8ByteSize, (before ++ text).utf8ByteSize⟩

/-- A span between two places of a text that are between characters. -/
structure Span.LiesIn (span : Span) (source : String) : Prop where
  marks : ∃ before text, span.Marks source before text
  le : span.start ≤ span.stop
  stop_le : span.stop ≤ source.utf8ByteSize

/-- A diagnostic tells of an error: its line and its message, and as the place the span of the token
at fault or else the whole text. -/
structure Diagnostic.Tells (d : Diagnostic) (source : String) (e : ParseError) : Prop where
  line : d.line = e.line?
  message : d.message = e.message
  severity : d.severity = "error"
  span : d.span = e.span?.getD ⟨0, source.utf8ByteSize⟩
  liesIn : d.span.LiesIn source

/-- What an error says of a place is so in the text. -/
def PlacedIn (source : String) : ParseError → Prop
  | .unexpectedToken _ found line span =>
    ∃ t ∈ tokenize source, t.kind ≠ .comment ∧ t.kind ≠ .eof ∧ span = t.span ∧ line = t.line ∧
      ∃ before text, span.Marks source before text ∧ line = 1 + before.toList.count '\n' ∧
        found.render = if t.kind = .newline then "end of line" else "'" ++ text ++ "'"
  | .invalidNumber text line =>
    ∃ t ∈ tokenize source, t.kind = .number ∧ text = t.text ∧ line = t.line ∧
      ∀ v, Decimal.readFloat text = some v → v.isFinite = false
  | .rowLength line expected found =>
    LengthRefused (contentLines (tokenize source)) line expected found
  | .unexpectedEnd _ | .invalidDimensions _ => True

theorem Span.Marks.liesIn {span : Span} {source before text : String}
    (h : span.Marks source before text) : span.LiesIn source := by
  refine ⟨⟨before, text, h⟩, ?_, ?_⟩
  · obtain ⟨after, _, rfl⟩ := h
    rw [String.utf8ByteSize_append]
    exact Nat.le_add_right _ _
  · obtain ⟨after, rfl, rfl⟩ := h
    rw [String.utf8ByteSize_append (s := before ++ text)]
    exact Nat.le_add_right _ _

theorem liesIn_all (source : String) : (Span.mk 0 source.utf8ByteSize).LiesIn source := by
  have hmarks : (Span.mk 0 source.utf8ByteSize).Marks source "" source := ⟨"", by simp, by simp⟩
  exact hmarks.liesIn

theorem isFinite_of_value? {t : Token} (h : t.value? = none) {v : Float}
    (hv : Decimal.readFloat t.text = some v) : v.isFinite = false := by
  rw [Token.value?, hv, Option.filter_some] at h
  cases hfinite : v.isFinite with
  | true => simp [hfinite] at h
  | false => rfl

theorem render_foundIn (t : Token) : (Parse.foundIn t).render =
    if t.kind = .newline then "end of line" else "'" ++ t.text ++ "'" := by
  rw [Parse.foundIn]
  split <;> rfl

/-- A visible token is a token of the text, and no comment. -/
theorem mem_of_mem_visible {source : String} {t : Token} (h : t ∈ visible (tokenize source)) :
    t ∈ tokenize source ∧ t.kind ≠ .comment :=
  ⟨(visibleFrom_sublist true _).subset h, beq_eq_false_iff_ne.1 (isComment_of_mem_visibleFrom h)⟩

/-- An error that points at a visible token is placed in the text. -/
theorem placedIn_of_pointsAt {source : String} {e : ParseError} {lengths : Bool}
    (h : Parse.PointsAt lengths (visible (tokenize source)) e)
    (hlength : ∀ line expected found, e = .rowLength line expected found →
      LengthRefused (contentLines (tokenize source)) line expected found) : PlacedIn source e := by
  cases e with
  | unexpectedToken expected found line span =>
    obtain ⟨t, ht, heof, rfl, rfl, rfl⟩ := h
    obtain ⟨hmem, hcomment⟩ := mem_of_mem_visible ht
    obtain ⟨before, after, hsource, hspan, hline⟩ := standsIn_tokenize source t hmem
    exact ⟨t, hmem, hcomment, heof, rfl, rfl, before, t.text, ⟨after, hsource, hspan⟩, hline,
      render_foundIn t⟩
  | invalidNumber text line =>
    obtain ⟨t, ht, hkind, hvalue, rfl, rfl⟩ := h
    exact ⟨t, (mem_of_mem_visible ht).1, hkind, rfl, rfl, fun v => isFinite_of_value? hvalue⟩
  | rowLength line expected found => exact hlength line expected found rfl
  | unexpectedEnd expected => trivial
  | invalidDimensions cause => trivial

/-- Parsers of files point at visible tokens. -/
theorem pointsAt_visible {β : Type} {p : Parse β} {source : String} {e : ParseError}
    {lengths : Bool} (htracks : Parse.Tracks Parse.nothing p) (hp : Parse.TakesFront lengths p)
    (herror : ofResult (p (tokenize source)) = .error e) :
    Parse.PointsAt lengths (visible (tokenize source)) e := by
  rw [← htracks.ofResult_visible] at herror
  obtain ⟨left, hresult⟩ := ofResult_eq_error_iff.1 herror
  exact hp.points hresult

theorem placedIn_of_parseInput {source : String} {e : ParseError}
    (h : parseInput source = .error e) : PlacedIn source e := by
  have htracks := Parse.tracks_input Parse.nothing_suffix
  refine placedIn_of_pointsAt (pointsAt_visible htracks htracks.front h) ?_
  rintro line expected found rfl
  obtain ⟨left, hresult⟩ := ofResult_eq_error_iff.1 h
  exact Parse.refuses_input source _ _ _ _ _ left List.suffix_rfl (holds_tokenize source) hresult

theorem placedIn_of_parseReference {source : String} {e : ParseError}
    (h : parseReference source = .error e) : PlacedIn source e := by
  have hfront : Parse.TakesFront false Parse.reference := Parse.takesFront_reference
  have htracks := Parse.tracks_reference Parse.nothing_suffix
  refine placedIn_of_pointsAt (pointsAt_visible htracks hfront h) ?_
  rintro line expected found rfl
  obtain ⟨left, hresult⟩ := ofResult_eq_error_iff.1 h
  exact absurd hresult hfront.ne_rowLength

/-- The span of a placed error, and of one without a place, lies in the text. -/
theorem PlacedIn.liesIn {source : String} {e : ParseError} (h : PlacedIn source e) :
    (Diagnostic.ofError source e).span.LiesIn source := by
  cases e with
  | unexpectedToken expected found line span =>
    obtain ⟨_, _, _, _, _, _, before, text, hmarks, _⟩ := h
    exact hmarks.liesIn
  | invalidNumber text line => exact liesIn_all source
  | rowLength line expected found => exact liesIn_all source
  | unexpectedEnd expected => exact liesIn_all source
  | invalidDimensions cause => exact liesIn_all source

/-- The line of a placed error is not the zeroth one. -/
theorem line_ne_zero_of_parseInput {source : String} {e : ParseError}
    (h : parseInput source = .error e) : e.line? ≠ some 0 := by
  intro hline
  have hpos := Parse.line_pos (Parse.tracks_input Parse.nothing_suffix).front h hline
  exact absurd hpos (Nat.lt_irrefl 0)

theorem line_ne_zero_of_parseReference {source : String} {e : ParseError}
    (h : parseReference source = .error e) : e.line? ≠ some 0 := by
  intro hline
  have hfront : Parse.TakesFront false Parse.reference := Parse.takesFront_reference
  exact absurd (Parse.line_pos hfront h hline) (Nat.lt_irrefl 0)

/-- The diagnostic of a placed error tells of it. -/
theorem PlacedIn.tells {source : String} {e : ParseError} (h : PlacedIn source e) :
    (Diagnostic.ofError source e).Tells source e :=
  ⟨rfl, rfl, rfl, rfl, h.liesIn⟩

/-- Either parser fails with an error that is placed in the text and not on a zeroth line, and the
only diagnostic of the text tells of it. A text that is read has no diagnostic. -/
theorem parse_error_place (source : String) :
    (∀ e, parseInput source = .error e → PlacedIn source e ∧ e.line? ≠ some 0 ∧
      ∃ d, validateInput source = [d] ∧ d.Tells source e) ∧
    (∀ e, parseReference source = .error e → PlacedIn source e ∧ e.line? ≠ some 0 ∧
      ∃ d, validateReference source = [d] ∧ d.Tells source e) ∧
    (∀ input, parseInput source = .ok input → validateInput source = []) ∧
    ∀ reference, parseReference source = .ok reference → validateReference source = [] := by
  refine ⟨fun e h => ?_, fun e h => ?_, fun input h => ?_, fun reference h => ?_⟩
  · have hplaced := placedIn_of_parseInput h
    refine ⟨hplaced, line_ne_zero_of_parseInput h, .ofError source e, ?_, hplaced.tells⟩
    rw [validateInput, h, diagnostics]
  · have hplaced := placedIn_of_parseReference h
    refine ⟨hplaced, line_ne_zero_of_parseReference h, .ofError source e, ?_, hplaced.tells⟩
    rw [validateReference, h, diagnostics]
  · rw [validateInput, h, diagnostics]
  · rw [validateReference, h, diagnostics]

/-- A word where numbers should stand, a row of one coefficient for two variables, and a solution
without its vector. -/
theorem parse_error_place_word_and_row :
    (parseInput "1 1\n# x\n é 2" = .error (.unexpectedToken .objective (.text "é") 3 ⟨9, 11⟩) ∧
      PlacedIn "1 1\n# x\n é 2" (.unexpectedToken .objective (.text "é") 3 ⟨9, 11⟩) ∧
      validateInput "1 1\n# x\n é 2" = [⟨some 3, ⟨9, 11⟩, "error",
        "Unexpected token on line 3: expected objective coefficients, found 'é'"⟩] ∧
      (Span.mk 9 11).LiesIn "1 1\n# x\n é 2") ∧
    (parseInput "1 2\nmin 1 2 # cost\n3 <= 4" = .error (.rowLength 3 2 1) ∧
      PlacedIn "1 2\nmin 1 2 # cost\n3 <= 4" (.rowLength 3 2 1)) ∧
    parseReference "7\n" = .error (.unexpectedEnd .solutionVector) ∧
      validateReference "7\n" =
        [⟨none, ⟨0, 2⟩, "error", "Unexpected end of file: expected solution vector"⟩] ∧
      (Span.mk 0 2).LiesIn "7\n" := by
  have hword : parseInput "1 1\n# x\n é 2" =
      .error (.unexpectedToken .objective (.text "é") 3 ⟨9, 11⟩) := by
    decide +kernel
  have hrow : parseInput "1 2\nmin 1 2 # cost\n3 <= 4" = .error (.rowLength 3 2 1) := by
    decide +kernel
  have hshort : parseReference "7\n" = .error (.unexpectedEnd .solutionVector) := by
    decide +kernel
  have hmark : validateInput "1 1\n# x\n é 2" = [⟨some 3, ⟨9, 11⟩, "error",
      "Unexpected token on line 3: expected objective coefficients, found 'é'"⟩] := by
    decide +kernel
  have hall : validateReference "7\n" =
      [⟨none, ⟨0, 2⟩, "error", "Unexpected end of file: expected solution vector"⟩] := by
    decide +kernel
  obtain ⟨hplaced, _, d, hd, htells⟩ := (parse_error_place "1 1\n# x\n é 2").1 _ hword
  obtain ⟨_, _, d', hd', htells'⟩ := (parse_error_place "7\n").2.1 _ hshort
  obtain rfl := List.singleton_inj.1 (hmark.symm.trans hd)
  obtain rfl := List.singleton_inj.1 (hall.symm.trans hd')
  exact ⟨⟨hword, hplaced, hmark, htells.liesIn⟩, ⟨hrow, ((parse_error_place _).1 _ hrow).1⟩,
    hshort, hall, htells'.liesIn⟩

end PenaltySimplex.Format
