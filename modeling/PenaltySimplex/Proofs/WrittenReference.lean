import PenaltySimplex.Format.Reference
import PenaltySimplex.Proofs.PrintedLexemes
import PenaltySimplex.Proofs.ReferenceGrammar
import PenaltySimplex.Proofs.WrittenNumber

/-!
# PenaltySimplex.Proofs.WrittenReference

When a written reference can be read back.

A word that is followed by a space or a newline is cut into tokens by itself (`LexesTo`). What is
written of a finite double is one number token with a finite value; what is written of another
double is no number (`lexesTo_fixed`). So the written lines are those of a reference file exactly
if all numbers are finite (`parseReference_writeReference_iff`), and each number is then read from
what was written of it (`exists_parseReference`).
-/

namespace PenaltySimplex

namespace Format

/-! ## Words -/

/-- A space or a newline comes next. -/
def Breaks (cs : List Char) : Prop := ∃ c rest, cs = c :: rest ∧ (c = ' ' ∨ c = '\n')

theorem Breaks.ends {cs : List Char} (h : Breaks cs) : Ends cs := by
  obtain ⟨c, rest, rfl, rfl | rfl⟩ := h
  all_goals
    rintro _ ⟨⟩
    decide

/-- Wherever a word stands before a space or a newline, its tokens are of a form. -/
def LexesTo (word : List Char) (P : List Token → Prop) : Prop :=
  ∀ rest offset line, Breaks rest → ∃ front stop,
    (⟨word ++ rest, offset, line⟩ : Cursor).tokens =
      front ++ (⟨rest, stop, line⟩ : Cursor).tokens ∧ P front

/-- A word that is one lexeme. -/
theorem lexesTo_of_takesOff {word : List Char} (kind : TokenKind) {P : List Token → Prop}
    (hkind : kind ≠ .newline) (htakes : ∀ rest, Ends rest → TakesOff kind word rest)
    (hP : ∀ t : Token, t.kind = kind → t.text = String.ofList word → P [t]) : LexesTo word P := by
  intro rest offset line hrest
  obtain ⟨c, cs, happend, hc, hl⟩ := htakes rest hrest.ends
  rw [happend, Cursor.tokens_cons hc, hl]
  simp only [Cursor.take, if_neg hkind]
  exact ⟨[_], _, rfl, hP _ rfl rfl⟩

/-! ## What is written of a double -/

/-- A value is read from what is written of a double. -/
def ReadsBack (x v : Float) : Prop := Decimal.readFloat (Decimal.fixed 10 x) = some v

/-- The tokens of what is written of a double. -/
structure WrittenAs (x : Float) (front : List Token) : Prop where
  nonempty : front ≠ []
  inner : ∀ t ∈ front, t.endsLine = false ∧ t.isComment = false
  finite : x.isFinite = true → ∃ t v, front = [t] ∧ t.Means v ∧ ReadsBack x v
  unread : x.isFinite = false → ∃ t ∈ front, t.kind ≠ .number

section Numbers

open Decimal

variable {whole fraction : List Char} {n : Nat}

theorem isNumeral_placed (h : Placed whole fraction n) (negative : Bool) :
    IsNumeral (signText negative ++ (whole ++ '.' :: fraction)) := by
  have hsign : IsSignText (signText negative) := by
    cases negative
    · exact .inl rfl
    · exact .inr (.inl rfl)
  have hnumeral := IsNumeral.mk hsign h.before (.some h.after) .none (.inl h.nonempty)
  rwa [List.append_nil, List.append_assoc] at hnumeral

theorem lexesTo_placed (h : Placed whole fraction n) (negative : Bool) {P : List Token → Prop}
    (hP : ∀ t : Token, t.kind = .number →
      t.text = String.ofList (signText negative ++ (whole ++ '.' :: fraction)) → P [t]) :
    LexesTo (signText negative ++ (whole ++ '.' :: fraction)) P :=
  lexesTo_of_takesOff .number TokenKind.noConfusion
    (fun _ hrest => takesOff_numeral hrest (isNumeral_placed h negative)) hP

end Numbers

theorem lexesTo_letters {c : Char} {cs : List Char} {P : List Token → Prop}
    (hletters : ∀ d ∈ c :: cs, d.isAlpha = true)
    (hkind : wordKind (String.ofList (c :: cs)) = .ident)
    (hP : ∀ t : Token, t.kind = .ident → P [t]) : LexesTo (c :: cs) P := by
  have hfirst : startsWord c = true := by
    rw [startsWord, Character.isAlphabetic_of_isAlpha (hletters c List.mem_cons_self)]
    rfl
  have hword : ∀ d ∈ cs, isWordChar d = true := by
    intro d hd
    have halphabetic := Character.isAlphabetic_of_isAlpha (hletters d (List.mem_cons_of_mem c hd))
    rw [isWordChar, Character.isAlphanumeric, halphabetic]
    rfl
  refine lexesTo_of_takesOff .ident TokenKind.noConfusion ?_ fun t ht _ => hP t ht
  intro rest hrest
  rw [← hkind]
  exact takesOff_word hrest _ _ hfirst hword

/-- The sign of a negative infinity is an error of its own. -/
theorem lexesTo_negative_inf {P : List Token → Prop}
    (hP : ∀ t u : Token, t.kind = .error → u.kind = .ident → P [t, u]) :
    LexesTo "-inf".toList P := by
  intro rest offset line hrest
  have hword : LexesTo "inf".toList fun front => ∃ u : Token, front = [u] ∧ u.kind = .ident :=
    lexesTo_letters (List.all_eq_true.1 rfl) (by decide) fun u hu => ⟨u, rfl, hu⟩
  obtain ⟨front, stop, hrest, u, rfl, hu⟩ := hword rest (offset + 1) line hrest
  have hlexeme : lexeme '-' ("inf".toList ++ rest) = ⟨.error, ['-'], "inf".toList ++ rest⟩ := rfl
  refine ⟨[⟨.error, ⟨offset, offset + 1⟩, line, String.ofList ['-']⟩, u], stop, ?_, hP _ _ rfl hu⟩
  show (⟨'-' :: ("inf".toList ++ rest), offset, line⟩ : Cursor).tokens = _
  rw [Cursor.tokens_cons (by decide), hlexeme]
  simp only [Cursor.take]
  exact congrArg _ hrest

theorem writtenAs_of_unread {x : Float} (hx : x.isFinite = false) {front : List Token}
    (hne : front ≠ []) (hkind : ∀ t ∈ front, t.kind = .ident ∨ t.kind = .error) :
    WrittenAs x front where
  nonempty := hne
  inner := by
    intro t ht
    obtain h | h := hkind t ht
    · rw [Token.endsLine, Token.isComment, h]
      decide
    · rw [Token.endsLine, Token.isComment, h]
      decide
  finite := by
    intro hfinite
    rw [hfinite] at hx
    cases hx
  unread := by
    intro _
    obtain ⟨t, ht⟩ := List.exists_mem_of_ne_nil front hne
    refine ⟨t, ht, ?_⟩
    obtain h | h := hkind t ht <;> rw [h] <;> decide

theorem lexesTo_fixed (x : Float) : LexesTo (Decimal.fixed 10 x).toList (WrittenAs x) := by
  cases hx : x.isFinite with
  | true =>
    obtain ⟨negative, whole, fraction, n, v, htext, hplaced, hreads, hfinite⟩ :=
      Decimal.exists_fixed_placed hx
    rw [htext, String.toList_ofList]
    refine lexesTo_placed hplaced negative ?_
    intro t hkind ht
    have hmeans : t.Means v := ⟨hkind, by rw [ht, ← htext, hreads], hfinite⟩
    have hback : ReadsBack x v := hreads
    have hcomment : t.isComment = false := by
      rw [Token.isComment, hkind]
      rfl
    refine ⟨List.cons_ne_nil _ _, List.forall_mem_singleton.2 ⟨hmeans.endsLine, hcomment⟩,
      fun _ => ⟨t, v, rfl, hmeans, hback⟩, ?_⟩
    intro hnot
    rw [hnot] at hx
    cases hx
  | false =>
    have hident (t : Token) (ht : t.kind = .ident) : WrittenAs x [t] :=
      writtenAs_of_unread hx (List.cons_ne_nil _ _) (List.forall_mem_singleton.2 (.inl ht))
    obtain h | h | h := Decimal.fixed_of_not_isFinite hx 10
    · rw [h]
      exact lexesTo_letters (List.all_eq_true.1 rfl) (by decide) hident
    · rw [h]
      exact lexesTo_letters (List.all_eq_true.1 rfl) (by decide) hident
    · rw [h]
      refine lexesTo_negative_inf fun t u ht hu => ?_
      refine writtenAs_of_unread hx (List.cons_ne_nil _ _) ?_
      exact List.forall_mem_cons.2 ⟨.inr ht, List.forall_mem_singleton.2 (.inl hu)⟩

/-! ## Written files -/

theorem tokens_values {xs : List Float} (hne : xs ≠ []) (rest : List Char) (offset line : Nat) :
    ∃ fronts stop,
      (⟨[' '].intercalate (xs.map fun x => (Decimal.fixed 10 x).toList) ++ '\n' :: rest, offset,
        line⟩ : Cursor).tokens =
          List.flatten fronts ++ (⟨'\n' :: rest, stop, line⟩ : Cursor).tokens ∧
      List.Forall₂ WrittenAs xs fronts := by
  induction xs generalizing offset with
  | nil => exact absurd rfl hne
  | cons x xs ih =>
    cases xs with
    | nil =>
      obtain ⟨front, stop, htokens, hfront⟩ :=
        lexesTo_fixed x ('\n' :: rest) offset line ⟨_, _, rfl, .inr rfl⟩
      refine ⟨[front], stop, ?_, .cons hfront .nil⟩
      rw [List.map_singleton, List.intercalate_singleton, htokens, List.flatten_singleton]
    | cons y ys =>
      have hsplit : [' '].intercalate ((x :: y :: ys).map fun x => (Decimal.fixed 10 x).toList) ++
          '\n' :: rest = (Decimal.fixed 10 x).toList ++ ' ' ::
            ([' '].intercalate ((y :: ys).map fun x => (Decimal.fixed 10 x).toList) ++
              '\n' :: rest) := by
        simp [List.intercalate_cons_cons]
      obtain ⟨front, stop, htokens, hfront⟩ :=
        lexesTo_fixed x (' ' :: _) offset line ⟨_, _, rfl, .inl rfl⟩
      have hgap : ∀ c ∈ [' '], isSeparator c = true := List.forall_mem_singleton.2 rfl
      obtain ⟨next, hspace⟩ := Cursor.tokens_gap hgap _ stop line
      obtain ⟨fronts, stop', htail, hfronts⟩ := ih (List.cons_ne_nil y ys) next
      refine ⟨front :: fronts, stop', ?_, .cons hfront hfronts⟩
      rw [List.singleton_append] at hspace
      rw [hsplit, htokens, hspace, htail, List.flatten_cons, List.append_assoc]

theorem inner_flatten {xs : List Float} {fronts : List (List Token)}
    (h : List.Forall₂ WrittenAs xs fronts) :
    ∀ t ∈ fronts.flatten, t.endsLine = false ∧ t.isComment = false := by
  induction h with
  | nil => exact fun t ht => absurd ht List.not_mem_nil
  | cons hfirst _ ih =>
    rw [List.flatten_cons]
    exact List.forall_mem_append.2 ⟨hfirst.inner, ih⟩

theorem flatten_ne_nil {xs : List Float} {fronts : List (List Token)}
    (h : List.Forall₂ WrittenAs xs fronts) (hne : xs ≠ []) : fronts.flatten ≠ [] := by
  cases h with
  | nil => exact absurd rfl hne
  | cons hfirst _ =>
    rw [List.flatten_cons]
    exact List.append_ne_nil_of_left_ne_nil hfirst.nonempty _

/-- The lines of a file that is written, with the tokens of each number. -/
theorem contentLines_writeReference (v : Float) {xs : List Float} (hne : xs ≠ []) :
    ∃ front fronts, contentLines (tokenize (writeReference v xs)) =
        [(front, 1), (List.flatten fronts, 2)] ∧
      WrittenAs v front ∧ List.Forall₂ WrittenAs xs fronts := by
  have htext : (writeReference v xs).toList = (Decimal.fixed 10 v).toList ++ '\n' ::
      ([' '].intercalate (xs.map fun x => (Decimal.fixed 10 x).toList) ++ ['\n']) := by
    have hmap : (xs.map (Decimal.fixed 10)).map String.toList =
        xs.map fun x => (Decimal.fixed 10 x).toList := List.map_map
    simp only [writeReference, referencePlaces, String.toList_append, String.toList_intercalate,
      hmap, List.append_assoc]
    rfl
  obtain ⟨front, stop, hfirst, hfront⟩ :=
    lexesTo_fixed v ('\n' :: ([' '].intercalate (xs.map fun x => (Decimal.fixed 10 x).toList) ++
      ['\n'])) 0 1 ⟨_, _, rfl, .inr rfl⟩
  obtain ⟨t, ht, _, hnewline⟩ := Cursor.tokens_newline
    ([' '].intercalate (xs.map fun x => (Decimal.fixed 10 x).toList) ++ ['\n']) stop 1
  obtain ⟨fronts, stop', hsecond, hfronts⟩ := tokens_values hne [] (stop + 1) 2
  obtain ⟨u, hu, _, hend⟩ := Cursor.tokens_newline [] stop' 2
  obtain ⟨e, he, _, heof⟩ := Cursor.tokens_nil (stop' + 1) 3
  have htokens : tokenize (writeReference v xs) =
      front ++ t :: (fronts.flatten ++ u :: [e]) := by
    rw [tokenize, Cursor.ofString, htext, hfirst, hnewline, hsecond, hend, heof]
  have hcontent : content (tokenize (writeReference v xs)) = tokenize (writeReference v xs) := by
    have hcomment (t : Token) (h : t.kind = .newline ∨ t.kind = .eof) : t.isComment = false := by
      obtain h | h := h <;> rw [Token.isComment, h] <;> rfl
    have hall : ∀ other ∈ front ++ t :: (fronts.flatten ++ u :: [e]), other.isComment = false := by
      simp only [List.forall_mem_append, List.forall_mem_cons]
      exact ⟨fun t ht => (hfront.inner t ht).2, hcomment t (.inl ht),
        fun t ht => (inner_flatten hfronts t ht).2, hcomment u (.inl hu), hcomment e (.inr he),
        fun t ht => absurd ht List.not_mem_nil⟩
    rw [htokens, content, List.filter_eq_self]
    intro other hother
    rw [hall other hother]
    rfl
  refine ⟨front, fronts, ?_, hfront, hfronts⟩
  rw [contentLines, hcontent, htokens,
    linesFrom_append (fun t ht => (hfront.inner t ht).1) hfront.nonempty (endsLine_of_newline ht),
    linesFrom_append (fun t ht => (inner_flatten hfronts t ht).1) (flatten_ne_nil hfronts hne)
      (endsLine_of_newline hu),
    linesFrom_cons (endsLine_of_eof he), linesFrom_nil]

theorem exists_values {xs : List Float} {fronts : List (List Token)}
    (h : List.Forall₂ WrittenAs xs fronts) (hfinite : ∀ x ∈ xs, x.isFinite = true) :
    ∃ vs, Values fronts.flatten vs ∧ List.Forall₂ ReadsBack xs vs := by
  induction h with
  | nil => exact ⟨[], .nil, .nil⟩
  | cons hfirst _ ih =>
    obtain ⟨hx, hxs⟩ := List.forall_mem_cons.1 hfinite
    obtain ⟨t, v, rfl, ht, hv⟩ := hfirst.finite hx
    obtain ⟨vs, hvs, hback⟩ := ih hxs
    exact ⟨v :: vs, .cons ht hvs, .cons hv hback⟩

/-- What is written of finite doubles is read number by number. -/
theorem exists_parseReference {v : Float} {xs : List Float} (hv : v.isFinite = true) (hne : xs ≠ [])
    (hxs : ∀ x ∈ xs, x.isFinite = true) : ∃ r, parseReference (writeReference v xs) = .ok r ∧
      ReadsBack v r.objective ∧ List.Forall₂ ReadsBack xs r.values := by
  obtain ⟨front, fronts, hlines, hfront, hfronts⟩ := contentLines_writeReference v hne
  obtain ⟨t, w, rfl, ht, hw⟩ := hfront.finite hv
  obtain ⟨vs, hvs, hback⟩ := exists_values hfronts hxs
  have hvsne : vs ≠ [] := by
    rw [← List.length_pos_iff, ← hback.length_eq]
    exact List.length_pos_iff.2 hne
  refine ⟨⟨w, vs⟩, ?_, hw, hback⟩
  rw [parseReference_eq_ok_iff, hlines]
  exact .mk ht hvs hvsne

/-- A list of numbers was written of finite doubles. -/
theorem isFinite_of_kind {xs : List Float} {fronts : List (List Token)}
    (h : List.Forall₂ WrittenAs xs fronts) (hkind : ∀ t ∈ fronts.flatten, t.kind = .number) :
    ∀ x ∈ xs, x.isFinite = true := by
  induction h with
  | nil => exact fun x hx => absurd hx List.not_mem_nil
  | cons hfirst _ ih =>
    rw [List.flatten_cons, List.forall_mem_append] at hkind
    refine List.forall_mem_cons.2 ⟨?_, ih hkind.2⟩
    by_contra hnot
    obtain ⟨t, ht, hne⟩ := hfirst.unread (Bool.eq_false_iff.2 hnot)
    exact hne (hkind.1 t ht)

theorem Values.kind {line : List Token} {vs : List Float} (h : Values line vs) :
    ∀ t ∈ line, t.kind = .number := by
  induction h with
  | nil => exact fun t ht => absurd ht List.not_mem_nil
  | cons hfirst _ ih => exact List.forall_mem_cons.2 ⟨hfirst.kind, ih⟩

theorem isFinite_of_parseReference {v : Float} {xs : List Float} (hne : xs ≠ [])
    {r : Reference Float} (hr : parseReference (writeReference v xs) = .ok r) :
    v.isFinite = true ∧ ∀ x ∈ xs, x.isFinite = true := by
  obtain ⟨front, fronts, hlines, hfront, hfronts⟩ := contentLines_writeReference v hne
  rw [parseReference_eq_ok_iff, hlines] at hr
  obtain ⟨t, hfirst, ht, hvalues⟩ : ∃ t, front = [t] ∧ t.kind = .number ∧
      ∀ t ∈ fronts.flatten, t.kind = .number := by
    cases hr with
    | mk ht hvalues _ => exact ⟨_, rfl, ht.kind, hvalues.kind⟩
  have hkind : ∀ t ∈ [front].flatten, t.kind = .number := by
    rw [hfirst, List.flatten_singleton]
    exact List.forall_mem_singleton.2 ht
  exact ⟨isFinite_of_kind (.cons hfront .nil) hkind v List.mem_cons_self,
    isFinite_of_kind hfronts hvalues⟩

/-- A written reference can be read back exactly if all its numbers are finite, and then it has as
many values as were written. -/
theorem parseReference_writeReference_iff (v : Float) {xs : List Float} (hne : xs ≠ []) :
    (∃ r, parseReference (writeReference v xs) = .ok r ∧ r.values.length = xs.length) ↔
      v.isFinite = true ∧ ∀ x ∈ xs, x.isFinite = true := by
  constructor
  · rintro ⟨r, hr, _⟩
    exact isFinite_of_parseReference hne hr
  · rintro ⟨hv, hxs⟩
    obtain ⟨r, hr, _, hback⟩ := exists_parseReference hv hne hxs
    exact ⟨r, hr, hback.length_eq.symm⟩

end Format

end PenaltySimplex
