import Mathlib.Data.List.Chain
import Mathlib.Data.List.TakeWhile
import Mathlib.Data.String.Basic
import PenaltySimplex.Format.Lexer

/-!
# PenaltySimplex.Proofs.Lexing

The tokens of a text divide it: nothing is lost but the separators between them.

* `Division source before ts`: the tokens `ts` cut up what follows `before` in `source`. A token
  comes after a gap of separators, its span is the place of its text, its line is counted by the
  newlines before it, and a newline character is a token of its own. The last token is the end of
  the file.
* `Cursor.At.division`: the tokens from any place of a text are a division of its rest.
* `tokenize_lossless`: what that says of the tokens of a whole text.
-/

namespace PenaltySimplex.Format

/-! ## Newlines in lexemes -/

theorem notMem_spanDigits (cs : List Char) : '\n' ∉ (spanDigits cs).1 := by
  intro h
  have hdigit := List.mem_takeWhile_imp h
  exact absurd hdigit (by decide)

theorem notMem_spanSign (cs : List Char) : '\n' ∉ (spanSign cs).1 := by
  unfold spanSign
  split
  · split
    · rename_i c cs hsign
      intro h
      obtain rfl := List.mem_singleton.1 h
      exact absurd hsign (by decide)
    · exact List.not_mem_nil
  · exact List.not_mem_nil

theorem notMem_spanPlaces (cs : List Char) : '\n' ∉ (spanPlaces cs).1 := by
  unfold spanPlaces
  split
  · split
    · rename_i cs _
      exact List.not_mem_cons_of_ne_of_not_mem (by decide) (notMem_spanDigits cs)
    · exact List.not_mem_nil
  · exact List.not_mem_nil

theorem notMem_spanExponent (cs : List Char) : '\n' ∉ (spanExponent cs).1 := by
  unfold spanExponent
  split
  · split
    · rename_i c cs hmark
      refine List.not_mem_cons_of_ne_of_not_mem ?_ ?_
      · rintro rfl
        exact absurd hmark (by decide)
      · exact fun h => (List.mem_append.1 h).elim (notMem_spanSign _) (notMem_spanDigits _)
    · exact List.not_mem_nil
  · exact List.not_mem_nil

theorem notMem_numberLexeme (cs : List Char) : '\n' ∉ (numberLexeme cs).text := by
  show '\n' ∉ (spanNumber cs).1
  simp only [spanNumber, List.mem_append, notMem_spanSign, notMem_spanDigits, notMem_spanPlaces,
    notMem_spanExponent, or_self, not_false_eq_true]

theorem notMem_wordLexeme {c : Char} (hc : c ≠ '\n') (cs : List Char) :
    '\n' ∉ (wordLexeme c cs).text := by
  refine List.not_mem_cons_of_ne_of_not_mem hc.symm ?_
  intro h
  have hword := List.mem_takeWhile_imp h
  exact absurd hword (by decide)

theorem notMem_comparisonLexeme {c : Char} (hc : c ≠ '\n') (cs : List Char) :
    '\n' ∉ (comparisonLexeme c cs).text := by
  unfold comparisonLexeme
  split
  · exact List.not_mem_cons_of_ne_of_not_mem hc.symm (by decide)
  · exact List.not_mem_cons_of_ne_of_not_mem hc.symm List.not_mem_nil

theorem kind_comparisonLexeme_ne_newline (c : Char) (cs : List Char) :
    (comparisonLexeme c cs).kind ≠ .newline := by
  unfold comparisonLexeme
  split
  · simp only
    split
    · simp
    · split <;> simp
  · simp only
    split <;> simp

theorem kind_wordLexeme_ne_newline (c : Char) (cs : List Char) :
    (wordLexeme c cs).kind ≠ .newline := by
  simp only [wordLexeme, wordKind]
  split
  · simp
  · split <;> simp

/-- A lexeme is a newline character, or it has none. -/
def Lexeme.SplitsLines (l : Lexeme) : Prop :=
  l.kind = .newline ∧ l.text = ['\n'] ∨ l.kind ≠ .newline ∧ '\n' ∉ l.text

theorem splitsLines_lexeme (c : Char) (cs : List Char) : (lexeme c cs).SplitsLines := by
  unfold lexeme
  split
  · rename_i h
    exact Or.inl ⟨rfl, by rw [beq_iff_eq.1 h]⟩
  · rename_i h
    have hc : c ≠ '\n' := fun hc => h (beq_iff_eq.2 hc)
    have hone : '\n' ∉ [c] := fun h => hc (List.mem_singleton.1 h).symm
    refine Or.inr ?_
    split
    · refine ⟨nofun, List.not_mem_cons_of_ne_of_not_mem hc.symm ?_⟩
      intro h
      have hline := List.mem_takeWhile_imp h
      exact absurd hline (by decide)
    · split
      · exact ⟨kind_comparisonLexeme_ne_newline c cs, notMem_comparisonLexeme hc cs⟩
      · split
        · split
          · exact ⟨nofun, notMem_numberLexeme _⟩
          · exact ⟨nofun, hone⟩
        · split
          · exact ⟨nofun, notMem_numberLexeme _⟩
          · split
            · exact ⟨kind_wordLexeme_ne_newline c cs, notMem_wordLexeme hc cs⟩
            · exact ⟨nofun, hone⟩

/-! ## Divisions -/

theorem utf8ByteSize_ofList (cs : List Char) : (String.ofList cs).utf8ByteSize = byteLength cs := by
  rw [String.utf8ByteSize_ofList]
  induction cs with
  | nil => rfl
  | cons c cs ih => rw [String.utf8Len_cons, ih, byteLength, Nat.add_comm]

theorem byteLength_append (cs ds : List Char) :
    byteLength (cs ++ ds) = byteLength cs + byteLength ds := by
  induction cs with
  | nil => rw [List.nil_append, byteLength, Nat.zero_add]
  | cons c cs ih => rw [List.cons_append, byteLength, ih, byteLength, Nat.add_assoc]

theorem byteLength_le_append (cs ds : List Char) : byteLength cs ≤ byteLength (cs ++ ds) := by
  rw [byteLength_append]
  exact Nat.le_add_right _ _

theorem byteLength_pos {cs : List Char} (h : cs ≠ []) : 0 < byteLength cs := by
  cases cs with
  | nil => exact absurd rfl h
  | cons c cs => exact Nat.add_pos_left c.utf8Size_pos _

/-- The line on which a text ends. -/
def lineAfter (before : List Char) : Nat := 1 + before.count '\n'

/-- The token of a lexeme that follows `before` in a text. -/
def Lexeme.tokenAfter (before : List Char) (l : Lexeme) : Token where
  kind := l.kind
  span := ⟨byteLength before, byteLength (before ++ l.text)⟩
  line := lineAfter before
  text := String.ofList l.text

/-- The end of a file that consists of `before`. -/
def endAfter (before : List Char) : Token where
  kind := .eof
  span := ⟨byteLength before, byteLength before⟩
  line := lineAfter before
  text := ""

inductive Division (source : List Char) : List Char → List Token → Prop where
  | stop {before gap : List Char} (hgap : ∀ c ∈ gap, isSeparator c = true)
      (hend : before ++ gap = source) : Division source before [endAfter (before ++ gap)]
  | token {before gap : List Char} {l : Lexeme} {ts : List Token}
      (hgap : ∀ c ∈ gap, isSeparator c = true) (hne : l.text ≠ []) (hkind : l.kind ≠ .eof)
      (hlines : l.SplitsLines) (hrest : Division source (before ++ gap ++ l.text) ts) :
      Division source before (l.tokenAfter (before ++ gap) :: ts)

/-- The place of a cursor in a text. -/
structure Cursor.At (source before : List Char) (cur : Cursor) : Prop where
  append : before ++ cur.rest = source
  offset : cur.offset = byteLength before
  line : cur.line = lineAfter before

theorem count_separators {gap : List Char} (h : ∀ c ∈ gap, isSeparator c = true) :
    gap.count '\n' = 0 := by
  refine List.count_eq_zero.2 ?_
  intro hmem
  exact absurd (h '\n' hmem) (by decide)

theorem lineAfter_append_gap {gap : List Char} (h : ∀ c ∈ gap, isSeparator c = true)
    (before : List Char) : lineAfter (before ++ gap) = lineAfter before := by
  rw [lineAfter, List.count_append, count_separators h]
  rfl

theorem Lexeme.SplitsLines.count {l : Lexeme} (h : l.SplitsLines) :
    l.text.count '\n' = if l.kind = .newline then 1 else 0 := by
  obtain ⟨hkind, htext⟩ | ⟨hkind, htext⟩ := h
  · rw [if_pos hkind, htext]
    rfl
  · rw [if_neg hkind, List.count_eq_zero.2 htext]

namespace Cursor

variable {source before : List Char} {cur : Cursor}

theorem At.skipSeparators (h : cur.At source before) :
    ∃ gap, (∀ c ∈ gap, isSeparator c = true) ∧ cur.skipSeparators.At source (before ++ gap) := by
  have hgap : ∀ c ∈ cur.rest.takeWhile isSeparator, isSeparator c = true :=
    fun c hc => List.mem_takeWhile_imp hc
  refine ⟨_, hgap, ?_, ?_, ?_⟩
  · show before ++ _ ++ cur.rest.dropWhile isSeparator = source
    rw [List.append_assoc, List.takeWhile_append_dropWhile]
    exact h.append
  · show cur.offset + _ = _
    rw [byteLength_append, h.offset]
  · exact h.line.trans (lineAfter_append_gap hgap before).symm

theorem At.take (h : cur.At source before) {l : Lexeme} (hrest : l.text ++ l.rest = cur.rest)
    (hlines : l.SplitsLines) :
    (cur.take l).1 = l.tokenAfter before ∧ (cur.take l).2.At source (before ++ l.text) := by
  have hstop : cur.offset + byteLength l.text = byteLength (before ++ l.text) := by
    rw [byteLength_append, h.offset]
  refine ⟨?_, ?_, hstop, ?_⟩
  · simp only [Cursor.take, Lexeme.tokenAfter, hstop]
    rw [h.offset, h.line]
  · show before ++ l.text ++ l.rest = source
    rw [List.append_assoc, hrest, h.append]
  · show (if l.kind = .newline then cur.line + 1 else cur.line) = _
    rw [lineAfter, List.count_append, hlines.count, h.line, lineAfter]
    split <;> rfl

/-- The text ends after the separators, or a lexeme follows them. -/
theorem next_cases (cur : Cursor) :
    cur.skipSeparators.rest = [] ∧
        cur.next = (⟨.eof, ⟨cur.skipSeparators.offset, cur.skipSeparators.offset⟩,
          cur.skipSeparators.line, ""⟩, cur.skipSeparators) ∨
      ∃ c cs, cur.skipSeparators.rest = c :: cs ∧
        cur.next = cur.skipSeparators.take (lexeme c cs) := by
  cases hrest : cur.skipSeparators.rest with
  | nil => exact Or.inl ⟨rfl, by simp only [next, hrest]⟩
  | cons c cs => exact Or.inr ⟨c, cs, rfl, by simp only [next, hrest]⟩

/-- The end of the file comes after the rest of a text, which is a gap. -/
theorem At.next_end (h : cur.At source before) (heof : cur.next.1.kind = .eof) :
    cur.skipSeparators.rest = [] ∧ cur.skipSeparators.At source source ∧
      ∃ gap, (∀ c ∈ gap, isSeparator c = true) ∧ before ++ gap = source ∧
        cur.next.1 = endAfter (before ++ gap) := by
  obtain ⟨gap, hgap, hplace⟩ := h.skipSeparators
  obtain ⟨hrest, hnext⟩ | ⟨c, cs, _, hnext⟩ := cur.next_cases
  · have hend := hplace.append
    rw [hrest, List.append_nil] at hend
    refine ⟨hrest, hend ▸ hplace, gap, hgap, hend, ?_⟩
    rw [hnext, hplace.offset, hplace.line]
    rfl
  · rw [hnext] at heof
    exact absurd heof (kind_lexeme_ne_eof c cs)

/-- Any other token is a lexeme after a gap. -/
theorem At.next_lexeme (h : cur.At source before) (hne : cur.next.1.kind ≠ .eof) :
    ∃ gap, ∃ l : Lexeme, (∀ c ∈ gap, isSeparator c = true) ∧ l.text ≠ [] ∧ l.kind ≠ .eof ∧
      l.SplitsLines ∧ cur.next.1 = l.tokenAfter (before ++ gap) ∧
      cur.next.2.At source (before ++ gap ++ l.text) := by
  obtain ⟨gap, hgap, hplace⟩ := h.skipSeparators
  obtain ⟨_, hnext⟩ | ⟨c, cs, hrest, hnext⟩ := cur.next_cases
  · rw [hnext] at hne
    exact absurd rfl hne
  · have hlines := splitsLines_lexeme c cs
    have htake := hplace.take ((lexeme_append c cs).trans hrest.symm) hlines
    rw [← hnext] at htake
    exact ⟨gap, lexeme c cs, hgap, lexeme_ne_nil c cs, kind_lexeme_ne_eof c cs, hlines, htake⟩

theorem At.division (h : cur.At source before) : Division source before cur.tokens := by
  fun_induction Cursor.tokens cur generalizing before with
  | case1 cur heof =>
    obtain ⟨_, _, gap, hgap, hend, htoken⟩ := h.next_end heof
    rw [htoken]
    exact .stop hgap hend
  | case2 cur hne ih =>
    obtain ⟨gap, l, hgap, htext, hkind, hlines, htoken, hrest⟩ := h.next_lexeme hne
    rw [htoken]
    exact .token hgap htext hkind hlines (ih hrest)

theorem at_ofString (source : String) : (ofString source).At source.toList [] where
  append := rfl
  offset := rfl
  line := rfl

end Cursor

theorem division_tokenize (source : String) :
    Division source.toList [] (tokenize source) :=
  (Cursor.at_ofString source).division

/-! ## What a division says -/

/-- A token stands in a text where its span and its line say. -/
def Token.StandsIn (t : Token) (source : String) : Prop :=
  ∃ before after, source = before ++ t.text ++ after ∧
    t.span = ⟨before.utf8ByteSize, (before ++ t.text).utf8ByteSize⟩ ∧
    t.line = 1 + before.toList.count '\n'

/-- Two places of a text between characters, with only spaces, tabs and carriage returns between
them. -/
def IsGap (source : String) (start stop : Nat) : Prop :=
  ∃ before gap after, source = before ++ gap ++ after ∧
    before.utf8ByteSize = start ∧ (before ++ gap).utf8ByteSize = stop ∧
    ∀ c ∈ gap.toList, c = ' ' ∨ c = '\t' ∨ c = '\r'

theorem standsIn_of_append {source before text after : List Char} {t : Token}
    (happend : before ++ text ++ after = source) (htext : t.text = String.ofList text)
    (hspan : t.span = ⟨byteLength before, byteLength (before ++ text)⟩)
    (hline : t.line = lineAfter before) : t.StandsIn (String.ofList source) := by
  refine ⟨String.ofList before, String.ofList after, ?_, ?_, ?_⟩
  · rw [htext, ← String.ofList_append, ← String.ofList_append, happend]
  · rw [hspan, htext, ← String.ofList_append, utf8ByteSize_ofList, utf8ByteSize_ofList]
  · rw [hline, String.toList_ofList, lineAfter]

theorem isGap_of_append {source before gap after : List Char}
    (happend : before ++ gap ++ after = source) (hgap : ∀ c ∈ gap, isSeparator c = true) :
    IsGap (String.ofList source) (byteLength before) (byteLength (before ++ gap)) := by
  refine ⟨String.ofList before, String.ofList gap, String.ofList after, ?_, ?_, ?_, ?_⟩
  · rw [← String.ofList_append, ← String.ofList_append, happend]
  · exact utf8ByteSize_ofList before
  · rw [← String.ofList_append, utf8ByteSize_ofList]
  · intro c hc
    rw [String.toList_ofList] at hc
    have hseparator := hgap c hc
    simpa [isSeparator, or_assoc] using hseparator

namespace Division

variable {source before : List Char} {ts : List Token}

theorem isPrefix (h : Division source before ts) : before <+: source := by
  induction h with
  | stop _ hend => exact ⟨_, hend⟩
  | token _ _ _ _ _ ih =>
    rw [List.append_assoc] at ih
    exact (List.prefix_append _ _).trans ih

/-- Tokens at the end of a division divide what they have of the text. -/
theorem of_suffix {us : List Token} (h : Division source before ts) (hus : us <:+ ts)
    (hne : us ≠ []) : ∃ before', Division source before' us := by
  induction h with
  | @stop before gap hgap hend =>
    obtain rfl | hnil := List.suffix_cons_iff.1 hus
    · exact ⟨before, .stop hgap hend⟩
    · exact absurd (List.suffix_nil.1 hnil) hne
  | @token before gap l ts hgap htext hkind hlines hrest ih =>
    obtain rfl | hus := List.suffix_cons_iff.1 hus
    · exact ⟨before, .token hgap htext hkind hlines hrest⟩
    · exact ih hus

theorem standsIn (h : Division source before ts) :
    ∀ t ∈ ts, t.StandsIn (String.ofList source) := by
  induction h with
  | @stop before gap _ hend =>
    intro t ht
    obtain rfl := List.mem_singleton.1 ht
    have happend : before ++ gap ++ [] ++ [] = source := by
      rw [List.append_nil, List.append_nil, hend]
    refine standsIn_of_append happend rfl ?_ rfl
    rw [List.append_nil]
    rfl
  | token _ _ _ _ hrest ih =>
    intro t ht
    obtain rfl | ht := List.mem_cons.1 ht
    · obtain ⟨after, hafter⟩ := hrest.isPrefix
      exact standsIn_of_append hafter rfl rfl rfl
    · exact ih t ht

/-- A token is one newline character, or it has none. -/
theorem splitsLines (h : Division source before ts) :
    ∀ t ∈ ts, t.kind = .newline ∧ t.text = "\n" ∨ t.kind ≠ .newline ∧ '\n' ∉ t.text.toList := by
  induction h with
  | stop _ _ =>
    intro t ht
    obtain rfl := List.mem_singleton.1 ht
    exact Or.inr ⟨by simp [endAfter], List.not_mem_nil⟩
  | @token before gap l ts _ _ _ hlines _ ih =>
    intro t ht
    obtain rfl | ht := List.mem_cons.1 ht
    · refine hlines.imp (fun ⟨hkind, htext⟩ => ⟨hkind, ?_⟩) fun ⟨hkind, htext⟩ => ⟨hkind, ?_⟩
      · rw [Lexeme.tokenAfter, htext]
      · rwa [Lexeme.tokenAfter, String.toList_ofList]
    · exact ih t ht

theorem isGap_head (h : Division source before ts) :
    ∀ t ∈ ts.head?, IsGap (String.ofList source) (byteLength before) t.span.start := by
  intro t ht
  cases h with
  | @stop _ gap hgap hend =>
    obtain rfl := Option.some.inj ht
    have happend := hend
    rw [← List.append_nil (before ++ gap)] at happend
    exact isGap_of_append happend hgap
  | token hgap _ _ _ hrest =>
    obtain rfl := Option.some.inj ht
    obtain ⟨after, hafter⟩ := hrest.isPrefix
    rw [List.append_assoc] at hafter
    exact isGap_of_append hafter hgap

theorem isChain (h : Division source before ts) :
    ts.IsChain fun t u => IsGap (String.ofList source) t.span.stop u.span.start := by
  induction h with
  | stop _ _ => exact .singleton _
  | token _ _ _ _ hrest ih => exact List.isChain_cons.2 ⟨hrest.isGap_head, ih⟩

theorem le_start (h : Division source before ts) :
    ∀ t ∈ ts, byteLength before ≤ t.span.start := by
  induction h with
  | stop _ _ =>
    intro t ht
    obtain rfl := List.mem_singleton.1 ht
    exact byteLength_le_append _ _
  | token _ _ _ _ _ ih =>
    intro t ht
    obtain rfl | ht := List.mem_cons.1 ht
    · exact byteLength_le_append _ _
    · have hlater := ih t ht
      rw [List.append_assoc] at hlater
      exact (byteLength_le_append _ _).trans hlater

theorem pairwise (h : Division source before ts) :
    ts.Pairwise fun t u => t.span.stop ≤ u.span.start := by
  induction h with
  | stop _ _ => exact List.pairwise_singleton _ _
  | token _ _ _ _ hrest ih => exact List.pairwise_cons.2 ⟨fun u hu => hrest.le_start u hu, ih⟩

theorem le_line (h : Division source before ts) : ∀ t ∈ ts, lineAfter before ≤ t.line := by
  induction h with
  | stop hgap _ =>
    intro t ht
    obtain rfl := List.mem_singleton.1 ht
    exact (lineAfter_append_gap hgap _).ge
  | @token before gap l ts hgap _ _ _ _ ih =>
    intro t ht
    obtain rfl | ht := List.mem_cons.1 ht
    · exact (lineAfter_append_gap hgap before).ge
    · have hlater := ih t ht
      rw [lineAfter, List.count_append, ← Nat.add_assoc, ← lineAfter,
        lineAfter_append_gap hgap] at hlater
      exact (Nat.le_add_right _ _).trans hlater

theorem exists_words (h : Division source before ts) :
    ∃ words, ts = words ++ [endAfter source] ∧
      ∀ t ∈ words, t.kind ≠ .eof ∧ t.span.start < t.span.stop := by
  induction h with
  | stop _ hend =>
    rw [hend]
    exact ⟨[], rfl, fun t ht => absurd ht List.not_mem_nil⟩
  | @token before gap l ts _ hne hkind _ _ ih =>
    obtain ⟨words, rfl, hwords⟩ := ih
    refine ⟨_ :: words, rfl, ?_⟩
    intro t ht
    obtain rfl | ht := List.mem_cons.1 ht
    · refine ⟨hkind, ?_⟩
      show byteLength (before ++ gap) < byteLength (before ++ gap ++ l.text)
      rw [byteLength_append _ l.text]
      exact Nat.lt_add_of_pos_right (byteLength_pos hne)
    · exact hwords t ht

theorem count_newline (h : Division source before ts) :
    before.count '\n' + ts.countP (fun t => t.kind = .newline) = source.count '\n' := by
  induction h with
  | stop hgap hend =>
    rw [← hend, List.count_append, count_separators hgap]
    rfl
  | @token before gap l ts hgap _ _ hlines _ ih =>
    have hkind : (l.tokenAfter (before ++ gap)).kind = l.kind := rfl
    rw [← ih, List.count_append, List.count_append, count_separators hgap, hlines.count,
      List.countP_cons, hkind]
    simp only [decide_eq_true_eq]
    omega

end Division

theorem standsIn_tokenize (source : String) : ∀ t ∈ tokenize source, t.StandsIn source := by
  have hstands := (division_tokenize source).standsIn
  rwa [String.ofList_toList] at hstands

/-! ## Calls after the end -/

namespace Cursor

/-- The end of the file is met again. -/
theorem next_next {cur : Cursor} (h : cur.next.1.kind = .eof) : cur.next.2.next = cur.next := by
  obtain ⟨hrest, hnext⟩ | ⟨c, cs, _, hnext⟩ := cur.next_cases
  · have hskip : cur.skipSeparators.skipSeparators = cur.skipSeparators := by
      rw [skipSeparators, hrest]
      show Cursor.mk [] cur.skipSeparators.offset cur.skipSeparators.line = _
      rw [← hrest]
    rw [hnext]
    simp only [next, hskip, hrest]
  · rw [hnext] at h
    exact absurd h (kind_lexeme_ne_eof c cs)

theorem nextTokens_of_eof {cur : Cursor} (h : cur.next.1.kind = .eof) (n : Nat) :
    cur.nextTokens n = List.replicate n cur.next.1 := by
  induction n generalizing cur with
  | zero => rfl
  | succ n ih =>
    have hagain : cur.next.2.next.1 = cur.next.1 := by rw [next_next h]
    rw [nextTokens, ih (hagain ▸ h), hagain, List.replicate_succ]

theorem nextTokens_of_tokens {cur : Cursor} {words : List Token} {e : Token}
    (h : cur.tokens = words ++ [e]) (n : Nat) :
    cur.nextTokens (words.length + n) = words ++ List.replicate n e := by
  fun_induction Cursor.tokens cur generalizing words with
  | case1 cur heof =>
    cases words with
    | nil =>
      obtain rfl := List.singleton_inj.1 h
      rw [List.length_nil, Nat.zero_add]
      exact nextTokens_of_eof heof n
    | cons t words => simp at h
  | case2 cur hne ih =>
    cases words with
    | nil =>
      -- a token that is not the end is followed by others
      obtain ⟨_, htokens⟩ := List.cons.inj h
      rw [Cursor.tokens] at htokens
      split at htokens <;> cases htokens
    | cons t words =>
      obtain ⟨rfl, htokens⟩ := List.cons.inj h
      rw [List.length_cons, Nat.succ_add, nextTokens, ih htokens, List.cons_append]

end Cursor

/-- The tokens of a text end with its only end of the file, at the end of the text, which further
calls give again. The other tokens are not empty, each token stands where its span and its line
say, only separators are left out, and each newline character is a newline token of its own. -/
theorem tokenize_lossless (source : String) :
    ∃ words eof, tokenize source = words ++ [eof] ∧
      eof.kind = .eof ∧ eof.span = ⟨source.utf8ByteSize, source.utf8ByteSize⟩ ∧
      (∀ t ∈ words, t.kind ≠ .eof ∧ t.span.start < t.span.stop) ∧
      (∀ t ∈ tokenize source, t.StandsIn source) ∧
      (tokenize source).Pairwise (fun t u => t.span.stop ≤ u.span.start) ∧
      (∀ t ∈ (tokenize source).head?, IsGap source 0 t.span.start) ∧
      (tokenize source).IsChain (fun t u => IsGap source t.span.stop u.span.start) ∧
      (tokenize source).countP (fun t => t.kind = .newline) = source.toList.count '\n' ∧
      (∀ t ∈ tokenize source,
        t.kind = .newline ∧ t.text = "\n" ∨ t.kind ≠ .newline ∧ '\n' ∉ t.text.toList) ∧
      ∀ n, (Cursor.ofString source).nextTokens (words.length + n) =
        words ++ List.replicate n eof := by
  have hdivision := division_tokenize source
  obtain ⟨words, htokens, hwords⟩ := hdivision.exists_words
  have hstands := hdivision.standsIn
  have hhead := hdivision.isGap_head
  have hchain := hdivision.isChain
  rw [String.ofList_toList] at hstands hhead hchain
  refine ⟨words, _, htokens, rfl, ?_, hwords, ?_, ?_, ?_, ?_, ?_,
    hdivision.splitsLines, ?_⟩
  · show Span.mk (byteLength source.toList) (byteLength source.toList) = _
    rw [← utf8ByteSize_ofList, String.ofList_toList]
  · exact hstands
  · exact hdivision.pairwise
  · exact hhead
  · exact hchain
  · have hcount := hdivision.count_newline
    rwa [List.count_nil, Nat.zero_add] at hcount
  · exact Cursor.nextTokens_of_tokens htokens

end PenaltySimplex.Format
