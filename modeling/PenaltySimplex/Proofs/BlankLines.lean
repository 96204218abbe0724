import PenaltySimplex.Proofs.AlikeTokens

/-!
# PenaltySimplex.Proofs.BlankLines

Comments and lines without content are invisible to the parsers. `visible ts` is what of the tokens
of a text makes a difference, and reading it gives the same result, also where that is an error
(`parse_visible`).
-/

namespace PenaltySimplex.Format

/-- The tokens without comments and without the newlines of lines that hold nothing else. The flag
says whether the line has no token yet. -/
def visibleFrom : Bool → List Token → List Token
  | _, [] => []
  | fresh, t :: ts =>
    if t.isComment then visibleFrom fresh ts
    else if t.isNewline then
      if fresh then visibleFrom true ts else t :: visibleFrom true ts
    else t :: visibleFrom false ts

def visible (ts : List Token) : List Token := visibleFrom true ts

example :
    (visible (tokenize "# caps\n\n2 1 # both\n \n3")).map (fun t => (t.kind, t.line)) =
      [(.number, 3), (.number, 3), (.newline, 3), (.number, 5), (.eof, 5)] := by
  decide +kernel

theorem visibleFrom_comment {t : Token} (h : t.isComment = true) (fresh : Bool) (ts : List Token) :
    visibleFrom fresh (t :: ts) = visibleFrom fresh ts :=
  if_pos h

theorem visibleFrom_newline {t : Token} (h : t.kind = .newline) (fresh : Bool) (ts : List Token) :
    visibleFrom fresh (t :: ts) =
      if fresh then visibleFrom true ts else t :: visibleFrom true ts := by
  have hcomment : t.isComment = false := by
    rw [Token.isComment, h]
    rfl
  have hnewline : t.isNewline = true := beq_iff_eq.2 h
  rw [visibleFrom, if_neg (by rw [hcomment]; decide), if_pos hnewline]

theorem visibleFrom_content {t : Token} (hcomment : t.isComment = false) (h : t.kind ≠ .newline)
    (fresh : Bool) (ts : List Token) : visibleFrom fresh (t :: ts) = t :: visibleFrom false ts := by
  have hnewline : t.isNewline = false := beq_eq_false_iff_ne.2 h
  rw [visibleFrom, if_neg (by rw [hcomment]; decide), if_neg (by rw [hnewline]; decide)]

theorem visibleFrom_sublist (fresh : Bool) (ts : List Token) :
    (visibleFrom fresh ts).Sublist ts := by
  fun_induction visibleFrom fresh ts with
  | case1 => exact .slnil
  | case2 fresh t ts hcomment ih => exact ih.cons t
  | case3 t ts hcomment hnewline ih => exact ih.cons t
  | case4 fresh t ts hcomment hnewline hfresh ih => exact ih.cons_cons t
  | case5 fresh t ts hcomment hnewline ih => exact ih.cons_cons t

/-- No comment is visible. -/
theorem isComment_of_mem_visibleFrom {fresh : Bool} {ts : List Token} {t : Token}
    (h : t ∈ visibleFrom fresh ts) : t.isComment = false := by
  fun_induction visibleFrom fresh ts with
  | case1 => cases h
  | case2 fresh u ts hcomment ih => exact ih h
  | case3 u ts hcomment hnewline ih => exact ih h
  | case4 fresh u ts hcomment hnewline hfresh ih =>
    obtain rfl | h := List.mem_cons.1 h
    · exact Bool.eq_false_iff.2 hcomment
    · exact ih h
  | case5 fresh u ts hcomment hnewline ih =>
    obtain rfl | h := List.mem_cons.1 h
    · exact Bool.eq_false_iff.2 hcomment
    · exact ih h

namespace Parse

/-- No token is lost. -/
def nothing : List Token → Prop := fun _ => False

variable {source before : List Char} {ts : List Token}

/-- What is visible in a line starts with what the content of the line starts with. -/
theorem lineOf_visibleFrom (ts : List Token) :
    lineOf (visibleFrom false ts) = lineOf (content ts) := by
  induction ts with
  | nil => rfl
  | cons t ts ih =>
    cases hcomment : t.isComment with
    | true => rw [visibleFrom_comment hcomment, content_cons_comment hcomment, ih]
    | false =>
      rw [content_cons hcomment]
      by_cases hnewline : t.kind = .newline
      · rw [visibleFrom_newline hnewline]
        rfl
      · rw [visibleFrom_content hcomment hnewline]
        rfl

theorem between_nothing {us : List Token} :
    Between nothing ts us ↔
      Alike nothing (ts.dropWhile Token.isBlank) (us.dropWhile Token.isBlank) :=
  iff_of_eq (false_or _)

/-- What is left out of the tokens of a text makes no difference, between lines and in a line. -/
theorem alike_visible (h : Division source before ts) :
    Between nothing ts (visible ts) ∧ Within nothing ts (visibleFrom false ts) := by
  induction h with
  | stop hgap hend =>
    exact ⟨between_of_eof rfl, rfl, .eof rfl⟩
  | @token before gap l ts hgap hne hkind hlines hrest ih =>
    obtain ⟨hbetween, hwithin⟩ := ih
    have h : Division source before (l.tokenAfter (before ++ gap) :: ts) :=
      .token hgap hne hkind hlines hrest
    have hline := h.lineOf_tokens.trans (h.lineOf_content.symm.trans (lineOf_visibleFrom _).symm)
    generalize ht : l.tokenAfter (before ++ gap) = t at hline
    have heof : t.kind ≠ .eof := ht ▸ hkind
    cases hcomment : t.isComment with
    | true =>
      rw [between_nothing, dropBlank_comment hcomment, visible, visibleFrom_comment hcomment]
      rw [visibleFrom_comment hcomment] at hline ⊢
      refine ⟨between_nothing.1 hbetween, hline, ?_⟩
      rw [List.dropWhile_cons_of_pos hcomment]
      exact hwithin.alike
    | false =>
      by_cases hnewline : t.kind = .newline
      · rw [between_nothing, dropBlank_newline hnewline, visible, visibleFrom_newline hnewline,
          visibleFrom_newline hnewline]
        exact ⟨between_nothing.1 hbetween, (hbetween.alike_newline hnewline).within⟩
      · have halike := hwithin.alike_word (endsLine_eq_false hnewline heof)
          (beq_eq_false_iff_ne.1 hcomment)
        rw [between_nothing, visible, visibleFrom_content hcomment hnewline,
          visibleFrom_content hcomment hnewline, dropBlank_content hcomment hnewline,
          dropBlank_content hcomment hnewline]
        exact ⟨halike, halike.within⟩

theorem ofResult_eq_of_agreesUntil {β : Type} {r r' : Result β}
    (h : AgreesUntil nothing r r') : ofResult r' = ofResult r := by
  obtain h | ⟨_, _, _, h⟩ := h
  · cases h with
    | ok x rest => rfl
    | error e => rfl
    | unseen here points => exact here.elim
  · exact h.elim

/-- A parser that tracks alike tokens reads a text by what is visible of it. -/
theorem Tracks.ofResult_visible {β : Type} {p : Parse β} (hp : Tracks nothing p)
    (source : String) :
    ofResult (p (visible (tokenize source))) = ofResult (p (tokenize source)) :=
  ofResult_eq_of_agreesUntil (hp.agrees _ _ (alike_visible (division_tokenize source)).1)

theorem nothing_suffix (ts us : List Token) : us <:+ ts → nothing ts → nothing us := fun _ h => h

end Parse

/-- Comments and lines without content are invisible: without their tokens a text is read with the
same result, which is the same value or the same error. -/
theorem parse_visible (source : String) :
    ofResult (Parse.input (visible (tokenize source))) = parseInput source ∧
      ofResult (Parse.reference (visible (tokenize source))) = parseReference source :=
  ⟨(Parse.tracks_input Parse.nothing_suffix).ofResult_visible source,
    (Parse.tracks_reference Parse.nothing_suffix).ofResult_visible source⟩

end PenaltySimplex.Format
