import PenaltySimplex.Proofs.AlikeTokens

/-!
# PenaltySimplex.Proofs.LineLocality

An error is told by the lines up to its own.

* `Cursor.tokens_append_newline`: the tokens before a newline character do not depend on the text
  after it.
* `parse_error_local`: two texts that start with the same `l` lines fail with the same error, if
  one of them fails with an error on line `l`.
-/

namespace PenaltySimplex.Format

/-! ## Lexemes before a newline character -/

section Lexemes

variable (r : List Char)

theorem takeWhile_append_newline {p : Char → Bool} (hp : p '\n' = false) (cs : List Char) :
    (cs ++ '\n' :: r).takeWhile p = cs.takeWhile p := by
  induction cs with
  | nil => exact List.takeWhile_cons_of_neg (by rw [hp]; decide)
  | cons c cs ih => rw [List.cons_append, List.takeWhile_cons, List.takeWhile_cons, ih]

theorem dropWhile_append_newline {p : Char → Bool} (hp : p '\n' = false) (cs : List Char) :
    (cs ++ '\n' :: r).dropWhile p = cs.dropWhile p ++ '\n' :: r := by
  induction cs with
  | nil => exact List.dropWhile_cons_of_neg (by rw [hp]; decide)
  | cons c cs ih =>
    rw [List.cons_append, List.dropWhile_cons, List.dropWhile_cons, ih]
    split <;> rfl

/-- A part of a lexeme and what is left, with more text after a newline character. -/
def withLine (s : List Char × List Char) : List Char × List Char := (s.1, s.2 ++ '\n' :: r)

theorem spanDigits_append_newline (cs : List Char) :
    spanDigits (cs ++ '\n' :: r) = withLine r (spanDigits cs) := by
  have hdigit : Char.isDigit '\n' = false := by decide
  rw [spanDigits, takeWhile_append_newline r hdigit, dropWhile_append_newline r hdigit]
  rfl

theorem spanSign_append_newline (cs : List Char) :
    spanSign (cs ++ '\n' :: r) = withLine r (spanSign cs) := by
  cases cs with
  | nil => rfl
  | cons c cs =>
    show (if isSign c then _ else _) = withLine r (if isSign c then _ else _)
    split <;> rfl

theorem spanPlaces_append_newline (cs : List Char) :
    spanPlaces (cs ++ '\n' :: r) = withLine r (spanPlaces cs) := by
  cases cs with
  | nil => rfl
  | cons c cs =>
    rw [List.cons_append, spanPlaces, spanDigits_append_newline, spanPlaces]
    split <;> rfl

theorem spanExponent_append_newline (cs : List Char) :
    spanExponent (cs ++ '\n' :: r) = withLine r (spanExponent cs) := by
  cases cs with
  | nil => rfl
  | cons c cs =>
    simp only [List.cons_append, spanExponent, spanSign_append_newline, withLine,
      spanDigits_append_newline]
    split <;> rfl

theorem spanNumber_append_newline (cs : List Char) :
    spanNumber (cs ++ '\n' :: r) = withLine r (spanNumber cs) := by
  simp only [spanNumber, spanSign_append_newline, withLine, spanDigits_append_newline,
    spanPlaces_append_newline, spanExponent_append_newline]

/-- A lexeme with more text after a newline character. -/
def Lexeme.withLine (l : Lexeme) : Lexeme := { l with rest := l.rest ++ '\n' :: r }

theorem comparisonLexeme_append_newline (c : Char) (cs : List Char) :
    comparisonLexeme c (cs ++ '\n' :: r) = (comparisonLexeme c cs).withLine r := by
  obtain _ | ⟨d, cs⟩ := cs
  · rfl
  · by_cases h : d = '='
    · rw [h]
      rfl
    · rw [List.cons_append, comparisonLexeme, comparisonLexeme]
      · rfl
      · exact fun _ hcons => h (List.cons.inj hcons).1
      · exact fun _ hcons => h (List.cons.inj hcons).1

theorem startsNumber_append_newline (cs : List Char) :
    startsNumber (cs ++ '\n' :: r) = startsNumber cs := by
  cases cs <;> rfl

theorem numberLexeme_append_newline (cs : List Char) :
    numberLexeme (cs ++ '\n' :: r) = (numberLexeme cs).withLine r := by
  rw [numberLexeme, spanNumber_append_newline]
  rfl

theorem wordLexeme_append_newline (c : Char) (cs : List Char) :
    wordLexeme c (cs ++ '\n' :: r) = (wordLexeme c cs).withLine r := by
  have hword : isWordChar '\n' = false := by decide
  rw [wordLexeme, takeWhile_append_newline r hword, dropWhile_append_newline r hword]
  rfl

/-- No lexeme looks past the end of its line. -/
theorem lexeme_append_newline (c : Char) (cs : List Char) :
    lexeme c (cs ++ '\n' :: r) = (lexeme c cs).withLine r := by
  have hcomment : ('\n' != '\n') = false := by decide
  unfold lexeme
  rw [takeWhile_append_newline r (p := (· != '\n')) hcomment,
    dropWhile_append_newline r (p := (· != '\n')) hcomment, comparisonLexeme_append_newline,
    startsNumber_append_newline, ← List.cons_append, numberLexeme_append_newline,
    wordLexeme_append_newline]
  repeat' split
  all_goals rfl

end Lexemes

/-! ## Tokens before a newline character -/

namespace Cursor

/-- The same place in a text that goes on after a newline character. -/
def withLine (r : List Char) (cur : Cursor) : Cursor := { cur with rest := cur.rest ++ '\n' :: r }

variable {source before : List Char} {cur : Cursor}

theorem At.withLine (h : cur.At source before) (r : List Char) :
    (cur.withLine r).At (source ++ '\n' :: r) before where
  append := by rw [Cursor.withLine, ← h.append, List.append_assoc]
  offset := h.offset
  line := h.line

theorem skipSeparators_withLine (cur : Cursor) (r : List Char) :
    (cur.withLine r).skipSeparators = cur.skipSeparators.withLine r := by
  have hnewline : isSeparator '\n' = false := by decide
  simp only [skipSeparators, withLine, takeWhile_append_newline r hnewline,
    dropWhile_append_newline r hnewline]

theorem next_withLine (h : cur.next.1.kind ≠ .eof) (r : List Char) :
    (cur.withLine r).next = (cur.next.1, cur.next.2.withLine r) := by
  obtain ⟨_, hnext⟩ | ⟨c, cs, hrest, hnext⟩ := cur.next_cases
  · rw [hnext] at h
    exact absurd rfl h
  · have hlong : (cur.withLine r).skipSeparators.rest = c :: (cs ++ '\n' :: r) := by
      rw [skipSeparators_withLine, withLine, hrest, List.cons_append]
    rw [hnext, next, hlong]
    simp only
    rw [lexeme_append_newline, skipSeparators_withLine]
    rfl

end Cursor

/-- The newline character after a text. -/
def newlineAfter (source : List Char) : Token :=
  (Lexeme.mk .newline ['\n'] []).tokenAfter source

/-- The place after a text and a newline character. -/
def Cursor.afterLine (source r : List Char) : Cursor :=
  ⟨r, byteLength (source ++ ['\n']), lineAfter (source ++ ['\n'])⟩

theorem Cursor.next_withLine_of_eof {source before : List Char} {cur : Cursor}
    (h : cur.At source before) (heof : cur.next.1.kind = .eof) (r : List Char) :
    (cur.withLine r).next = (newlineAfter source, afterLine source r) := by
  obtain ⟨hrest, hplace, _⟩ := h.next_end heof
  have hlong : (cur.withLine r).skipSeparators.rest = '\n' :: r := by
    rw [skipSeparators_withLine, withLine, hrest, List.nil_append]
  have hnext : (cur.withLine r).next =
      (cur.skipSeparators.withLine r).take ⟨.newline, ['\n'], r⟩ := by
    rw [next, hlong, skipSeparators_withLine]
    rfl
  have hlines : (Lexeme.mk .newline ['\n'] r).SplitsLines := Or.inl ⟨rfl, rfl⟩
  have hrest : ['\n'] ++ r = (cur.skipSeparators.withLine r).rest := by
    rw [withLine, hrest]
    rfl
  obtain ⟨htoken, hafter⟩ := (hplace.withLine r).take hrest hlines
  rw [← hnext] at htoken hafter
  refine Prod.ext htoken ?_
  calc (cur.withLine r).next.2
      = ⟨(cur.withLine r).next.2.rest, (cur.withLine r).next.2.offset,
          (cur.withLine r).next.2.line⟩ := rfl
    _ = afterLine source r := by
      rw [hafter.offset, hafter.line, hnext]
      rfl

/-- The tokens before a newline character do not depend on the text after it. -/
theorem Cursor.At.tokens_withLine {source before : List Char} {cur : Cursor}
    (h : cur.At source before) :
    ∃ words, (∀ t ∈ words, t.kind ≠ .eof) ∧ cur.tokens = words ++ [endAfter source] ∧
      ∀ r, (cur.withLine r).tokens =
        words ++ newlineAfter source :: (afterLine source r).tokens := by
  fun_induction Cursor.tokens cur generalizing before with
  | case1 cur heof =>
    obtain ⟨_, _, gap, _, hend, htoken⟩ := h.next_end heof
    refine ⟨[], fun t ht => absurd ht List.not_mem_nil, by rw [htoken, hend]; rfl, fun r => ?_⟩
    have hkind : (newlineAfter source).kind ≠ .eof := by
      show TokenKind.newline ≠ .eof
      decide
    rw [tokens, next_withLine_of_eof h heof]
    exact dif_neg hkind
  | case2 cur hne ih =>
    obtain ⟨_, _, _, _, _, _, _, hrest⟩ := h.next_lexeme hne
    obtain ⟨words, hwords, hshort, hlong⟩ := ih hrest
    refine ⟨cur.next.1 :: words, List.forall_mem_cons.2 ⟨hne, hwords⟩, by rw [hshort]; rfl,
      fun r => ?_⟩
    rw [tokens, next_withLine hne, dif_neg hne, hlong]
    rfl

/-- The tokens of a text and of the texts that go on after a newline character. -/
theorem exists_words_of_line (q : List Char) :
    ∃ words, (∀ t ∈ words, t.kind ≠ .eof) ∧
      (∀ source : String, source.toList = q → tokenize source = words ++ [endAfter q]) ∧
      ∀ (source : String) (r : List Char), source.toList = q ++ '\n' :: r →
        tokenize source = words ++ newlineAfter q :: (Cursor.afterLine q r).tokens := by
  have hplace : (Cursor.mk q 0 1).At q [] := ⟨rfl, rfl, rfl⟩
  obtain ⟨words, hwords, hshort, hlong⟩ := hplace.tokens_withLine
  refine ⟨words, hwords, ?_, ?_⟩
  · rintro source rfl
    exact hshort
  · intro source r hsource
    rw [tokenize, Cursor.ofString, hsource]
    exact hlong r

/-! ## Texts with the same first lines -/

/-- The first lines of a text, with their newline characters. -/
def takeLines : Nat → List Char → List Char
  | 0, _ => []
  | _ + 1, [] => []
  | l + 1, c :: cs => c :: takeLines (if c = '\n' then l else l + 1) cs

/-- Two texts have the same first `l` lines. A last line without a newline character may also be
ended in the second text. -/
def SameLines (l : Nat) (source source' : String) : Prop :=
  takeLines l source'.toList = takeLines l source.toList ∨
    (source.toList.count '\n' < l ∧ ∃ more, source' = source ++ "\n" ++ more)

/-- A text has fewer newlines, or its first lines end with one. -/
theorem takeLines_cases {l : Nat} (hl : 0 < l) (cs : List Char) :
    (cs.count '\n' < l ∧ takeLines l cs = cs) ∨
      ∃ q r, cs = q ++ '\n' :: r ∧ q.count '\n' + 1 = l ∧ takeLines l cs = q ++ ['\n'] := by
  induction cs generalizing l with
  | nil =>
    obtain _ | l := l
    · cases hl
    · exact Or.inl ⟨hl, rfl⟩
  | cons c cs ih =>
    obtain _ | l := l
    · cases hl
    · by_cases hc : c = '\n'
      · rw [takeLines, if_pos hc, hc]
        obtain _ | l := l
        · exact Or.inr ⟨[], cs, rfl, rfl, by rw [takeLines]; rfl⟩
        · obtain ⟨hcount, htake⟩ | ⟨q, r, rfl, hcount, htake⟩ := ih l.succ_pos
          · rw [htake, List.count_cons_self]
            exact Or.inl ⟨Nat.succ_lt_succ hcount, rfl⟩
          · rw [htake]
            refine Or.inr ⟨'\n' :: q, r, rfl, ?_, rfl⟩
            rw [List.count_cons_self, hcount]
      · rw [takeLines, if_neg hc]
        obtain ⟨hcount, htake⟩ | ⟨q, r, rfl, hcount, htake⟩ := ih l.succ_pos
        · rw [htake, List.count_cons_of_ne hc]
          exact Or.inl ⟨hcount, rfl⟩
        · rw [htake]
          refine Or.inr ⟨c :: q, r, rfl, ?_, rfl⟩
          rw [List.count_cons_of_ne hc, hcount]

namespace Parse

/-- Tokens after line `l`, and ends of a file. -/
def AfterLine (l : Nat) (ts : List Token) : Prop := ∀ t ∈ ts, t.kind = .eof ∨ l < t.line

theorem afterLine_suffix {l : Nat} (ts us : List Token) (hsuffix : us <:+ ts)
    (h : AfterLine l ts) : AfterLine l us :=
  fun t ht => h t (hsuffix.subset ht)

/-- Errors of tokens after a line are not on it. -/
theorem AfterLine.ne_line {l : Nat} {ts : List Token} {e : ParseError} (h : AfterLine l ts)
    (hpoints : PointsAt true ts e) : e.line? ≠ some l := by
  intro hline
  obtain ⟨t, ht, hkind, hl⟩ := hpoints.exists_line hline
  obtain heof | hlt := h t ht
  · exact hkind heof
  · exact absurd hl (Nat.ne_of_gt hlt)

variable {lost : List Token → Prop} {ts us : List Token}

/-- Alike tokens stay so after the same words. -/
theorem alike_append {words : List Token} (hwords : ∀ t ∈ words, t.kind ≠ .eof)
    (hbetween : Between lost ts us) (hwithin : Within lost ts us) :
    Between lost (words ++ ts) (words ++ us) ∧ Within lost (words ++ ts) (words ++ us) := by
  induction words with
  | nil => exact ⟨hbetween, hwithin⟩
  | cons t words ih =>
    obtain ⟨hkind, hwords⟩ := List.forall_mem_cons.1 hwords
    obtain ⟨hbetween, hwithin⟩ := ih hwords
    rw [List.cons_append, List.cons_append]
    generalize words ++ ts = ts at hbetween hwithin
    generalize words ++ us = us at hbetween hwithin
    cases hcomment : t.isComment with
    | true =>
      rw [Between, dropBlank_comment hcomment, dropBlank_comment hcomment]
      refine ⟨hbetween, rfl, ?_⟩
      rw [List.dropWhile_cons_of_pos hcomment, List.dropWhile_cons_of_pos hcomment]
      exact hwithin.alike
    | false =>
      by_cases hnewline : t.kind = .newline
      · rw [Between, dropBlank_newline hnewline, dropBlank_newline hnewline]
        exact ⟨hbetween, (hbetween.alike_newline hnewline).within⟩
      · have halike := hwithin.alike_word (endsLine_eq_false hnewline hkind)
          (beq_eq_false_iff_ne.1 hcomment)
        rw [Between, dropBlank_content hcomment hnewline, dropBlank_content hcomment hnewline]
        exact ⟨Or.inr halike, halike.within⟩

theorem lineAfter_newline (q : List Char) : lineAfter (q ++ ['\n']) = lineAfter q + 1 := by
  rw [lineAfter, List.count_append]
  rfl

theorem afterLine_tokens {l : Nat} {q : List Char} (hq : q.count '\n' + 1 = l) (r : List Char) :
    AfterLine l (Cursor.afterLine q r).tokens := by
  have hplace : (Cursor.afterLine q r).At (q ++ '\n' :: r) (q ++ ['\n']) :=
    ⟨List.append_assoc _ _ _, rfl, rfl⟩
  intro t ht
  have hline := hplace.division.le_line t ht
  rw [lineAfter_newline, lineAfter] at hline
  exact Or.inr (by omega)

/-- Two texts that go on after the end of line `l`. -/
theorem between_of_newline {l : Nat} {q r r' : List Char} {source source' : String}
    (hq : q.count '\n' + 1 = l) (h : source.toList = q ++ '\n' :: r)
    (h' : source'.toList = q ++ '\n' :: r') :
    Between (AfterLine l) (tokenize source) (tokenize source') := by
  obtain ⟨words, hwords, _, hlong⟩ := exists_words_of_line q
  rw [hlong source r h, hlong source' r' h']
  have hlost : AfterLine l ((Cursor.afterLine q r).tokens.dropWhile Token.isBlank) :=
    afterLine_suffix _ _ (List.dropWhile_suffix _) (afterLine_tokens hq r)
  have hbetween : Between (AfterLine l) (newlineAfter q :: (Cursor.afterLine q r).tokens)
      (newlineAfter q :: (Cursor.afterLine q r').tokens) := by
    rw [Between, dropBlank_newline rfl]
    exact Or.inl hlost
  exact (alike_append hwords hbetween (Alike.passed rfl hlost).within).1

/-- A text and one that goes on after it on a new line. -/
theorem between_of_end (l : Nat) {r : List Char} {source source' : String}
    (h : source'.toList = source.toList ++ '\n' :: r) :
    Between (AfterLine l) (tokenize source) (tokenize source') := by
  obtain ⟨words, hwords, hshort, hlong⟩ := exists_words_of_line source.toList
  rw [hshort source rfl, hlong source' r h]
  have hlost : AfterLine l [endAfter source.toList] := List.forall_mem_singleton.2 (Or.inl rfl)
  have heof : kindOf [endAfter source.toList] = .eof := rfl
  have hbetween : Between (AfterLine l) [endAfter source.toList]
      (newlineAfter source.toList :: (Cursor.afterLine source.toList r).tokens) := by
    rw [Between, dropBlank_of_eof heof]
    exact Or.inl hlost
  have halike : Alike (AfterLine l) [endAfter source.toList]
      (newlineAfter source.toList :: (Cursor.afterLine source.toList r).tokens) :=
    .ended heof hlost rfl rfl
  exact (alike_append hwords hbetween halike.within).1

/-- Texts with the same first lines have alike tokens up to the end of these. -/
theorem between_tokenize {l : Nat} (hl : 0 < l) {source source' : String}
    (h : SameLines l source source') :
    source' = source ∨ Between (AfterLine l) (tokenize source) (tokenize source') := by
  obtain hlines | ⟨_, more, rfl⟩ := h
  · obtain ⟨hcount, htake⟩ | ⟨q, r, hq, hcount, htake⟩ := takeLines_cases hl source.toList
    · obtain ⟨_, htake'⟩ | ⟨q', r', _, hcount', htake'⟩ := takeLines_cases hl source'.toList
      · rw [htake, htake'] at hlines
        exact Or.inl (String.toList_inj.1 hlines)
      · -- the second text has a newline that the first has not
        rw [htake, htake'] at hlines
        rw [← hlines, List.count_append] at hcount
        exact absurd hcount (by simp [hcount'])
    · obtain ⟨hcount', htake'⟩ | ⟨q', r', hq', _, htake'⟩ := takeLines_cases hl source'.toList
      · rw [htake, htake'] at hlines
        rw [hlines, List.count_append] at hcount'
        exact absurd hcount' (by simp [hcount])
      · rw [htake, htake'] at hlines
        obtain rfl := List.append_cancel_right hlines
        exact Or.inr (between_of_newline hcount hq hq')
  · refine Or.inr (between_of_end l (r := more.toList) ?_)
    rw [String.toList_append, String.toList_append, List.append_assoc]
    rfl

/-- An error on a line is told by the tokens up to its end. -/
theorem Tracks.error_of_between {β : Type} {l : Nat} {p : Parse β} {e : ParseError}
    (hp : Tracks (AfterLine l) p) (h : Between (AfterLine l) ts us) (hline : e.line? = some l)
    (herror : ofResult (p ts) = .error e) : ofResult (p us) = .error e := by
  have hagrees := hp.agrees ts us h
  obtain ⟨left, hts⟩ := ofResult_eq_error_iff.1 herror
  rw [hts] at hagrees
  obtain hagrees | ⟨_, _, hok, _⟩ := hagrees
  · generalize p us = r at hagrees
    cases hagrees with
    | error e => rfl
    | unseen here points => exact absurd hline (here.ne_line points)
  · cases hok

theorem Tracks.error_of_sameLines {β : Type} {l : Nat} {p : Parse β} {e : ParseError}
    {source source' : String} (hp : Tracks (AfterLine l) p) (h : SameLines l source source')
    (hline : e.line? = some l) (herror : ofResult (p (tokenize source)) = .error e) :
    ofResult (p (tokenize source')) = .error e := by
  obtain rfl | hbetween := between_tokenize (line_pos hp.front herror hline) h
  · exact herror
  · exact hp.error_of_between hbetween hline herror

end Parse

/-- An error on a line is told by the lines up to that one: it is the error of every text that
starts with the same lines. -/
theorem parse_error_of_sameLines {source source' : String} {e : ParseError} {l : Nat}
    (hline : e.line? = some l) (h : SameLines l source source') :
    (parseInput source = .error e → parseInput source' = .error e) ∧
      (parseReference source = .error e → parseReference source' = .error e) :=
  ⟨(Parse.tracks_input Parse.afterLine_suffix).error_of_sameLines h hline,
    (Parse.tracks_reference Parse.afterLine_suffix).error_of_sameLines h hline⟩

/-- The second row is too long, and then something else comes. -/
theorem parse_error_of_sameLines_row :
    parseInput "2 1\n1\n1 <= 2\n1 2 = 3" = .error (.rowLength 4 1 2) ∧
      SameLines 4 "2 1\n1\n1 <= 2\n1 2 = 3" "2 1\n1\n1 <= 2\n1 2 = 3\nx" ∧
      parseInput "2 1\n1\n1 <= 2\n1 2 = 3\nx" = .error (.rowLength 4 1 2) := by
  have herror : parseInput "2 1\n1\n1 <= 2\n1 2 = 3" = .error (.rowLength 4 1 2) := by
    decide +kernel
  have hsame : SameLines 4 "2 1\n1\n1 <= 2\n1 2 = 3" "2 1\n1\n1 <= 2\n1 2 = 3\nx" :=
    Or.inr ⟨by decide, "x", rfl⟩
  exact ⟨herror, hsame, (parse_error_of_sameLines rfl hsame).1 herror⟩

end PenaltySimplex.Format
