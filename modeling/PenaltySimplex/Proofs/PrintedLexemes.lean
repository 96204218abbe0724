import PenaltySimplex.Proofs.Parsing

/-!
# PenaltySimplex.Proofs.PrintedLexemes

The lexer inverts printing (`tokenize_printed`): lexemes that are printed with separators between
neighbours, and with newlines and comments, are the tokens that come back.

* `IsNumeral`, `IsLexeme`: which texts are lexemes, and of which kind.
* `Printed`: how lexemes are laid out in a text.
* `takesOff_lexeme`: where a lexeme is followed by a separator, a newline, a comment or nothing, the
  longest lexeme is this one.
-/

namespace PenaltySimplex.Format

open Character

/-! ## The longest run of characters -/

/-- A text that does not go on with a character of this kind. -/
def StopsAt (p : Char → Bool) (cs : List Char) : Prop :=
  ∀ c ∈ cs.head?, p c = false

theorem StopsAt.takeWhile {p : Char → Bool} {rest : List Char} (h : StopsAt p rest)
    {cs : List Char} (hcs : ∀ c ∈ cs, p c = true) :
    (cs ++ rest).takeWhile p = cs ∧ (cs ++ rest).dropWhile p = rest := by
  have hrest : rest.takeWhile p = [] ∧ rest.dropWhile p = rest := by
    cases rest with
    | nil => exact ⟨rfl, rfl⟩
    | cons c rest =>
      have hc : ¬ p c = true := Bool.eq_false_iff.1 (h c rfl)
      exact ⟨List.takeWhile_cons_of_neg hc, List.dropWhile_cons_of_neg hc⟩
  rw [List.takeWhile_append_of_pos hcs, List.dropWhile_append_of_pos hcs, hrest.1, hrest.2,
    List.append_nil]
  exact ⟨rfl, rfl⟩

theorem spanDigits_append_of {ds rest : List Char} (hds : ∀ c ∈ ds, c.isDigit = true)
    (hrest : StopsAt Char.isDigit rest) : spanDigits (ds ++ rest) = (ds, rest) := by
  rw [spanDigits, (hrest.takeWhile hds).1, (hrest.takeWhile hds).2]

/-- The characters that no numeral, word or comparison goes on with. -/
def stops : List Char := [' ', '\t', '\r', '\n', '#']

/-- Nothing comes next, or one of these characters. -/
def Ends (cs : List Char) : Prop := ∀ c ∈ cs.head?, c ∈ stops

theorem Ends.stopsAt {cs : List Char} (h : Ends cs) {p : Char → Bool}
    (hp : stops.any p = false) : StopsAt p cs :=
  fun c hc => Bool.eq_false_iff.2 (List.any_eq_false.1 hp c (h c hc))

theorem ne_of_isDigit {d : Char} (hd : d.isDigit = true) {c : Char} (hc : c.isDigit = false) :
    d ≠ c := by
  rintro rfl
  rw [hd] at hc
  cases hc

/-! ## Numerals -/

def IsSignText (cs : List Char) : Prop := cs = [] ∨ cs = ['-'] ∨ cs = ['+']

/-- Nothing, or a point and digits. -/
inductive IsPlaces : List Char → Prop where
  | none : IsPlaces []
  | some {digits : List Char} (hdigits : ∀ c ∈ digits, c.isDigit = true) :
      IsPlaces ('.' :: digits)

/-- Nothing, or a mark, a sign and at least one digit. -/
inductive IsExponent : List Char → Prop where
  | none : IsExponent []
  | some {mark : Char} {sign digits : List Char} (hmark : mark = 'e' ∨ mark = 'E')
      (hsign : IsSignText sign) (hdigits : ∀ c ∈ digits, c.isDigit = true) (hne : digits ≠ []) :
      IsExponent (mark :: (sign ++ digits))

/-- A sign, digits, places and an exponent. Digits are before the point or after it. -/
inductive IsNumeral : List Char → Prop where
  | mk {sign whole places exponent : List Char} (hsign : IsSignText sign)
      (hwhole : ∀ c ∈ whole, c.isDigit = true) (hplaces : IsPlaces places)
      (hexponent : IsExponent exponent) (hne : whole ≠ [] ∨ 2 ≤ places.length) :
      IsNumeral (sign ++ whole ++ places ++ exponent)

section Numerals

variable {sign whole places exponent rest : List Char}

theorem spanSign_append_of (hsign : IsSignText sign) (hrest : StopsAt isSign rest) :
    spanSign (sign ++ rest) = (sign, rest) := by
  obtain rfl | rfl | rfl := hsign
  · cases rest with
    | nil => rfl
    | cons c rest =>
      have hc : isSign c = false := hrest c rfl
      simp [spanSign, hc]
  · rfl
  · rfl

theorem stopsAt_of_digits {p : Char → Bool} (hp : ∀ c, c.isDigit = true → p c = false)
    (hwhole : ∀ c ∈ whole, c.isDigit = true) (hrest : StopsAt p rest) :
    StopsAt p (whole ++ rest) := by
  cases whole with
  | nil => exact hrest
  | cons d whole =>
    rintro _ ⟨⟩
    exact hp d (hwhole d List.mem_cons_self)

theorem isSign_of_isDigit {c : Char} (hc : c.isDigit = true) : isSign c = false := by
  rw [isSign, beq_false_of_ne (ne_of_isDigit hc rfl), beq_false_of_ne (ne_of_isDigit hc rfl)]
  rfl

theorem IsExponent.stopsAt (h : IsExponent exponent) (hrest : Ends rest) {p : Char → Bool}
    (hp : ('e' :: 'E' :: stops).any p = false) : StopsAt p (exponent ++ rest) := by
  simp only [List.any_cons, Bool.or_eq_false_iff] at hp
  obtain ⟨he, hE, hstops⟩ := hp
  cases h with
  | none => exact hrest.stopsAt hstops
  | some hmark _ _ _ =>
    rintro _ ⟨⟩
    obtain rfl | rfl := hmark
    · exact he
    · exact hE

theorem IsPlaces.stopsAt (h : IsPlaces places) {p : Char → Bool} (hp : p '.' = false)
    (hrest : StopsAt p rest) : StopsAt p (places ++ rest) := by
  cases h with
  | none => exact hrest
  | some _ =>
    rintro _ ⟨⟩
    exact hp

theorem spanPlaces_append_of (h : IsPlaces places) (hdigit : StopsAt Char.isDigit rest)
    (hpoint : StopsAt (· == '.') rest) : spanPlaces (places ++ rest) = (places, rest) := by
  cases h with
  | none =>
    cases rest with
    | nil => rfl
    | cons c rest =>
      have hc : (c == '.') = false := hpoint c rfl
      simp [spanPlaces, hc]
  | some hdigits => simp [spanPlaces, spanDigits_append_of hdigits hdigit]

theorem spanExponent_append_of (h : IsExponent exponent) (hrest : Ends rest) :
    spanExponent (exponent ++ rest) = (exponent, rest) := by
  have hdigit := hrest.stopsAt (p := Char.isDigit) (by decide)
  cases h with
  | none =>
    cases rest with
    | nil => rfl
    | cons c rest =>
      have hc := hrest.stopsAt (p := fun c => c == 'e' || c == 'E') (by decide) c rfl
      simp [spanExponent, hc]
  | @some mark sign digits hmark hsign hdigits hne =>
    have hspan : spanSign (sign ++ (digits ++ rest)) = (sign, digits ++ rest) :=
      spanSign_append_of hsign (stopsAt_of_digits (fun _ => isSign_of_isDigit) hdigits
        (hrest.stopsAt (by decide)))
    have hmark : (mark == 'e' || mark == 'E') = true := by
      obtain rfl | rfl := hmark <;> rfl
    rw [List.cons_append, List.append_assoc, spanExponent, if_pos hmark]
    simp only [hspan, spanDigits_append_of hdigits hdigit]

/-- The longest number is the numeral. -/
theorem spanNumber_append_of (hsign : IsSignText sign) (hwhole : ∀ c ∈ whole, c.isDigit = true)
    (hplaces : IsPlaces places) (hexponent : IsExponent exponent) (hrest : Ends rest) :
    spanNumber (sign ++ whole ++ places ++ exponent ++ rest) =
      (sign ++ whole ++ places ++ exponent, rest) := by
  have hdigit := hexponent.stopsAt hrest (p := Char.isDigit) (by decide)
  have hpoint := hexponent.stopsAt hrest (p := (· == '.')) (by decide)
  have hnosign := hexponent.stopsAt hrest (p := isSign) (by decide)
  have hfirst : spanSign (sign ++ (whole ++ (places ++ (exponent ++ rest)))) =
      (sign, whole ++ (places ++ (exponent ++ rest))) :=
    spanSign_append_of hsign (stopsAt_of_digits (fun _ => isSign_of_isDigit) hwhole
      (hplaces.stopsAt rfl hnosign))
  have hsecond := spanDigits_append_of hwhole (hplaces.stopsAt rfl hdigit)
  simp only [spanNumber, List.append_assoc, hfirst, hsecond,
    spanPlaces_append_of hplaces hdigit hpoint, spanExponent_append_of hexponent hrest]

end Numerals

/-! ## Where a lexeme starts -/

theorem isSeparator_of_isDigit {c : Char} (hc : c.isDigit = true) : isSeparator c = false := by
  have hspace := ne_of_isDigit hc (c := ' ') rfl
  have htab := ne_of_isDigit hc (c := '\t') rfl
  have hreturn := ne_of_isDigit hc (c := '\r') rfl
  simp [isSeparator, hspace, htab, hreturn]

theorem lexeme_digit {c : Char} (hc : c.isDigit = true) (cs : List Char) :
    lexeme c cs = numberLexeme (c :: cs) := by
  have hne (d : Char) (hd : d.isDigit = false) : (c == d) = false :=
    beq_false_of_ne (ne_of_isDigit hc hd)
  simp only [lexeme, isSign, hne '\n' rfl, hne '#' rfl, hne '<' rfl, hne '>' rfl, hne '=' rfl,
    hne '-' rfl, hne '+' rfl, hne '.' rfl, hc, Bool.or_self, Bool.false_eq_true, if_false, if_true]

/-- A sign or a point before a digit or a point. -/
theorem lexeme_sign {c : Char} (hc : c = '-' ∨ c = '+' ∨ c = '.') {cs : List Char}
    (hcs : startsNumber cs = true) : lexeme c cs = numberLexeme (c :: cs) := by
  have hlexeme : lexeme c cs =
      if startsNumber cs = true then numberLexeme (c :: cs) else ⟨.error, [c], cs⟩ := by
    obtain rfl | rfl | rfl := hc <;> rfl
  rw [hlexeme, if_pos hcs]

/-- What a word starts with. -/
def startsWord (c : Char) : Bool := isAlphabetic c || c == '_'

theorem startsWord_of_isDigit {c : Char} (hc : c.isDigit = true) : startsWord c = false := by
  have hdigit := toNat_of_isDigit hc
  have hascii : c.toNat < 0x80 := by omega
  have halpha : c.isAlpha = false := by
    refine Bool.eq_false_iff.2 fun h => ?_
    have hletter := toNat_of_isAlpha h
    omega
  rw [startsWord, isAlphabetic, if_pos hascii, halpha, beq_false_of_ne (ne_of_isDigit hc rfl)]
  rfl

theorem ne_of_startsWord {c : Char} (hc : startsWord c = true) {d : Char}
    (hd : startsWord d = false) : c ≠ d := by
  rintro rfl
  rw [hc] at hd
  cases hd

theorem isSeparator_of_startsWord {c : Char} (hc : startsWord c = true) :
    isSeparator c = false := by
  have hspace := ne_of_startsWord hc (d := ' ') rfl
  have htab := ne_of_startsWord hc (d := '\t') rfl
  have hreturn := ne_of_startsWord hc (d := '\r') rfl
  simp [isSeparator, hspace, htab, hreturn]

theorem lexeme_word {c : Char} (hc : startsWord c = true) (cs : List Char) :
    lexeme c cs = wordLexeme c cs := by
  have hne (d : Char) (hd : startsWord d = false) : (c == d) = false :=
    beq_false_of_ne (ne_of_startsWord hc hd)
  have hdigit : c.isDigit = false := by
    refine Bool.eq_false_iff.2 fun h => ?_
    rw [startsWord_of_isDigit h] at hc
    cases hc
  have hword : (isAlphabetic c || c == '_') = true := hc
  simp only [lexeme, isSign, hne '\n' rfl, hne '#' rfl, hne '<' rfl, hne '>' rfl, hne '=' rfl,
    hne '-' rfl, hne '+' rfl, hne '.' rfl, hdigit, hword, Bool.or_self, Bool.false_eq_true,
    if_false, if_true]

/-! ## Lexemes -/

/-- Which texts are lexemes of a kind. Newlines and comments belong to the layout. -/
inductive IsLexeme : TokenKind → String → Prop where
  | number {text : String} (numeral : IsNumeral text.toList) : IsLexeme .number text
  | min {text : String} (keyword : text = "min" ∨ text = "minimize") : IsLexeme .min text
  | max {text : String} (keyword : text = "max" ∨ text = "maximize") : IsLexeme .max text
  | ident {c : Char} {cs : List Char} (first : isAlphabetic c = true ∨ c = '_')
      (others : ∀ d ∈ cs, isAlphanumeric d = true ∨ d = '_')
      (other : String.ofList (c :: cs) ∉ ["min", "minimize", "max", "maximize"]) :
      IsLexeme .ident (String.ofList (c :: cs))
  | le : IsLexeme .le "<="
  | ge : IsLexeme .ge ">="
  | eq {text : String} (sign : text = "=" ∨ text = "==") : IsLexeme .eq text

/-- A lexeme is taken off a text as it is. -/
def TakesOff (kind : TokenKind) (text rest : List Char) : Prop :=
  ∃ c cs, text ++ rest = c :: cs ∧ isSeparator c = false ∧ lexeme c cs = ⟨kind, text, rest⟩

theorem startsNumber_append {whole places : List Char} (hwhole : ∀ c ∈ whole, c.isDigit = true)
    (hplaces : IsPlaces places) (hne : whole ≠ [] ∨ 2 ≤ places.length) (cs : List Char) :
    startsNumber (whole ++ (places ++ cs)) = true := by
  cases whole with
  | nil =>
    cases hplaces with
    | none => simp at hne
    | some _ => rfl
  | cons d whole => exact Bool.or_eq_true_iff.2 (.inl (hwhole d List.mem_cons_self))

/-- The first character of a numeral starts a number. -/
theorem IsNumeral.exists_first {text : List Char} (h : IsNumeral text) (rest : List Char) :
    ∃ c cs, text ++ rest = c :: cs ∧ isSeparator c = false ∧
      lexeme c cs = numberLexeme (c :: cs) := by
  obtain @⟨sign, whole, places, exponent, hsign, hwhole, hplaces, _, hne⟩ := h
  have hnumber := startsNumber_append hwhole hplaces hne (exponent ++ rest)
  simp only [List.append_assoc]
  obtain rfl | rfl | rfl := hsign
  · cases whole with
    | cons d whole =>
      have hd := hwhole d List.mem_cons_self
      exact ⟨d, _, rfl, isSeparator_of_isDigit hd, lexeme_digit hd _⟩
    | nil =>
      cases hplaces with
      | none => simp at hne
      | @some digits hdigits =>
        -- the point is followed by a digit
        obtain ⟨d, ds, rfl⟩ : ∃ d ds, digits = d :: ds :=
          List.exists_cons_of_length_pos (by simpa [Nat.succ_le_iff] using hne)
        have hd : startsNumber (d :: ds ++ (exponent ++ rest)) = true :=
          Bool.or_eq_true_iff.2 (.inl (hdigits d List.mem_cons_self))
        exact ⟨'.', _, rfl, rfl, lexeme_sign (.inr (.inr rfl)) hd⟩
  · exact ⟨'-', _, rfl, rfl, lexeme_sign (.inl rfl) hnumber⟩
  · exact ⟨'+', _, rfl, rfl, lexeme_sign (.inr (.inl rfl)) hnumber⟩

section TakesOff

variable {rest : List Char} (hrest : Ends rest)

include hrest

theorem takesOff_numeral {text : List Char} (h : IsNumeral text) :
    TakesOff .number text rest := by
  obtain ⟨c, cs, happend, hseparator, hlexeme⟩ := h.exists_first rest
  refine ⟨c, cs, happend, hseparator, ?_⟩
  obtain ⟨hsign, hwhole, hplaces, hexponent, _⟩ := h
  rw [hlexeme, ← happend, numberLexeme,
    spanNumber_append_of hsign hwhole hplaces hexponent hrest]

theorem takesOff_word (c : Char) (cs : List Char) (hc : startsWord c = true)
    (hcs : ∀ d ∈ cs, isWordChar d = true) :
    TakesOff (wordKind (String.ofList (c :: cs))) (c :: cs) rest := by
  have hspan := (hrest.stopsAt (p := isWordChar) (by decide)).takeWhile hcs
  refine ⟨c, cs ++ rest, rfl, isSeparator_of_startsWord hc, ?_⟩
  rw [lexeme_word hc, wordLexeme, hspan.1, hspan.2]

theorem takesOff_lexeme {kind : TokenKind} {text : String} (h : IsLexeme kind text) :
    TakesOff kind text.toList rest := by
  cases h with
  | number numeral => exact takesOff_numeral hrest numeral
  | min keyword =>
    obtain rfl | rfl := keyword
    · exact takesOff_word hrest 'm' ['i', 'n'] rfl (List.all_eq_true.1 rfl)
    · exact takesOff_word hrest 'm' "inimize".toList rfl (List.all_eq_true.1 rfl)
  | max keyword =>
    obtain rfl | rfl := keyword
    · exact takesOff_word hrest 'm' ['a', 'x'] rfl (List.all_eq_true.1 rfl)
    · exact takesOff_word hrest 'm' "aximize".toList rfl (List.all_eq_true.1 rfl)
  | @ident c cs first others other =>
    have hkind : wordKind (String.ofList (c :: cs)) = .ident := by
      simp only [List.mem_cons, List.not_mem_nil, or_false, not_or] at other
      simp only [wordKind, other, or_self, if_false]
    have hword := takesOff_word hrest c cs (by simpa [startsWord] using first)
      (by simpa [isWordChar] using others)
    rwa [hkind, ← String.toList_ofList (l := c :: cs)] at hword
  | le => exact ⟨'<', '=' :: rest, rfl, rfl, rfl⟩
  | ge => exact ⟨'>', '=' :: rest, rfl, rfl, rfl⟩
  | eq sign =>
    obtain rfl | rfl := sign
    · have hcomparison : comparisonLexeme '=' rest = ⟨.eq, ['='], rest⟩ := by
        cases rest with
        | nil => rfl
        | cons c rest =>
          have hc := hrest.stopsAt (p := (· == '=')) (by decide) c rfl
          have hne : c ≠ '=' := ne_of_beq_false hc
          unfold comparisonLexeme
          split
          · rename_i heq
            exact absurd (List.cons.inj heq).1 hne
          · rfl
      exact ⟨'=', rest, rfl, rfl, hcomparison⟩
    · exact ⟨'=', '=' :: rest, rfl, rfl, rfl⟩

end TakesOff

/-! ## Layout -/

/-- Separators, and a comment up to the end of the line. -/
inductive IsFiller : List Char → Prop where
  | gap {gap : List Char} (separators : ∀ c ∈ gap, isSeparator c = true) : IsFiller gap
  | comment {gap body : List Char} (separators : ∀ c ∈ gap, isSeparator c = true)
      (oneLine : '\n' ∉ body) : IsFiller (gap ++ '#' :: body)

/-- A text that lexemes are printed in: `spaced` says that the text comes directly after a lexeme
other than a newline, from which the next such lexeme is separated. -/
inductive Printed : Bool → List (TokenKind × String) → List Char → Prop where
  | stop {spaced : Bool} {filler : List Char} (hfiller : IsFiller filler) :
      Printed spaced [] filler
  | newline {spaced : Bool} {filler : List Char} {ls : List (TokenKind × String)} {cs : List Char}
      (hfiller : IsFiller filler) (rest : Printed false ls cs) :
      Printed spaced ((.newline, "\n") :: ls) (filler ++ '\n' :: cs)
  | lexeme {spaced : Bool} {gap : List Char} {kind : TokenKind} {text : String}
      {ls : List (TokenKind × String)} {cs : List Char}
      (separators : ∀ c ∈ gap, isSeparator c = true) (hspaced : spaced = true → gap ≠ [])
      (hlexeme : IsLexeme kind text) (rest : Printed true ls cs) :
      Printed spaced ((kind, text) :: ls) (gap ++ text.toList ++ cs)

/-- Kind and text of each token but the comments. -/
def lexemes (ts : List Token) : List (TokenKind × String) :=
  (content ts).map fun t => (t.kind, t.text)

theorem lexemes_cons {t : Token} (h : t.kind ≠ .comment) (ts : List Token) :
    lexemes (t :: ts) = (t.kind, t.text) :: lexemes ts := by
  rw [lexemes, Parse.content_cons (beq_false_of_ne h)]
  rfl

theorem lexemes_cons_comment {t : Token} (h : t.kind = .comment) (ts : List Token) :
    lexemes (t :: ts) = lexemes ts := by
  rw [lexemes, Parse.content_cons_comment (beq_iff_eq.2 h)]
  rfl

namespace Cursor

theorem tokens_of_next_eq {cur other : Cursor} (h : cur.next = other.next) :
    cur.tokens = other.tokens := by
  rw [tokens, h]
  conv_rhs => rw [tokens]

theorem tokens_gap {gap : List Char} (hgap : ∀ c ∈ gap, isSeparator c = true) (cs : List Char)
    (offset line : Nat) : ∃ stop,
    (⟨gap ++ cs, offset, line⟩ : Cursor).tokens = (⟨cs, stop, line⟩ : Cursor).tokens := by
  refine ⟨offset + byteLength gap, tokens_of_next_eq ?_⟩
  have hskip : (⟨gap ++ cs, offset, line⟩ : Cursor).skipSeparators =
      (⟨cs, offset + byteLength gap, line⟩ : Cursor).skipSeparators := by
    simp only [skipSeparators, List.dropWhile_append_of_pos hgap,
      List.takeWhile_append_of_pos hgap, byteLength_append, Nat.add_assoc]
  simp only [next, hskip]

theorem tokens_cons {c : Char} {cs : List Char} (hc : isSeparator c = false) (offset line : Nat) :
    (⟨c :: cs, offset, line⟩ : Cursor).tokens =
      ((⟨c :: cs, offset, line⟩ : Cursor).take (lexeme c cs)).1 ::
        ((⟨c :: cs, offset, line⟩ : Cursor).take (lexeme c cs)).2.tokens := by
  have hskip : (⟨c :: cs, offset, line⟩ : Cursor).skipSeparators = ⟨c :: cs, offset, line⟩ := by
    simp [skipSeparators, hc, byteLength]
  have hnext : (⟨c :: cs, offset, line⟩ : Cursor).next =
      (⟨c :: cs, offset, line⟩ : Cursor).take (lexeme c cs) := by
    simp only [next, hskip]
  rw [tokens, hnext, dif_neg]
  exact kind_lexeme_ne_eof c cs

theorem tokens_newline (cs : List Char) (offset line : Nat) :
    ∃ t, t.kind = .newline ∧ t.text = "\n" ∧ (⟨'\n' :: cs, offset, line⟩ : Cursor).tokens =
      t :: (⟨cs, offset + 1, line + 1⟩ : Cursor).tokens := by
  rw [tokens_cons (by decide)]
  exact ⟨_, rfl, rfl, rfl⟩

theorem tokens_nil (offset line : Nat) : ∃ t, t.kind = .eof ∧ t.text = "" ∧
    (⟨[], offset, line⟩ : Cursor).tokens = [t] := by
  have heof : (⟨[], offset, line⟩ : Cursor).next.1.kind = .eof := rfl
  rw [Cursor.tokens, dif_pos heof]
  exact ⟨_, heof, rfl, rfl⟩

/-- A filler leaves no token but a comment. -/
theorem lexemes_filler {filler : List Char} (h : IsFiller filler) (rest : List Char)
    (hrest : StopsAt (· != '\n') rest) (offset line : Nat) : ∃ stop,
    lexemes (⟨filler ++ rest, offset, line⟩ : Cursor).tokens =
      lexemes (⟨rest, stop, line⟩ : Cursor).tokens := by
  cases h with
  | gap separators =>
    obtain ⟨stop, hgap⟩ := tokens_gap separators rest offset line
    exact ⟨stop, congrArg lexemes hgap⟩
  | @comment gap body separators oneLine =>
    obtain ⟨stop, hgap⟩ := tokens_gap separators ('#' :: (body ++ rest)) offset line
    have hspan := hrest.takeWhile (p := (· != '\n')) fun c hc =>
      bne_iff_ne.2 fun h => oneLine (h ▸ hc)
    have hlexeme : lexeme '#' (body ++ rest) = ⟨.comment, '#' :: body, rest⟩ := by
      show Lexeme.mk _ ('#' :: (body ++ rest).takeWhile (· != '\n'))
        ((body ++ rest).dropWhile (· != '\n')) = _
      rw [hspan.1, hspan.2]
    rw [List.append_assoc, List.cons_append, hgap, tokens_cons (by decide), hlexeme,
      lexemes_cons_comment rfl]
    exact ⟨_, rfl⟩

/-- A lexeme is a token, and the text goes on behind it. -/
theorem lexemes_takesOff {kind : TokenKind} {text : String} {rest : List Char}
    (h : TakesOff kind text.toList rest) (hkind : kind ≠ .newline ∧ kind ≠ .comment)
    (offset line : Nat) : ∃ stop, lexemes (⟨text.toList ++ rest, offset, line⟩ : Cursor).tokens =
      (kind, text) :: lexemes (⟨rest, stop, line⟩ : Cursor).tokens := by
  obtain ⟨c, cs, happend, hc, hl⟩ := h
  rw [happend, tokens_cons hc, hl]
  simp only [take, if_neg hkind.1]
  rw [lexemes_cons hkind.2, String.ofList_toList]
  exact ⟨_, rfl⟩

end Cursor

theorem IsLexeme.kind_ne {kind : TokenKind} {text : String} (h : IsLexeme kind text) :
    kind ≠ .newline ∧ kind ≠ .comment := by
  cases h <;> decide

theorem mem_stops_of_isSeparator {c : Char} (h : isSeparator c = true) : c ∈ stops := by
  obtain (rfl | rfl) | rfl : (c = ' ' ∨ c = '\t') ∨ c = '\r' := by simpa [isSeparator] using h
  all_goals decide

theorem ends_append {gap rest : List Char} (hgap : ∀ c ∈ gap, isSeparator c = true)
    (hrest : gap = [] → Ends rest) : Ends (gap ++ rest) := by
  cases gap with
  | nil => exact hrest rfl
  | cons c gap =>
    rintro _ ⟨⟩
    exact mem_stops_of_isSeparator (hgap c List.mem_cons_self)

theorem IsFiller.ends {filler : List Char} (h : IsFiller filler) (rest : List Char)
    (hrest : Ends rest) : Ends (filler ++ rest) := by
  cases h with
  | gap separators => exact ends_append separators fun _ => hrest
  | comment separators _ =>
    rw [List.append_assoc]
    refine ends_append separators fun _ => ?_
    rintro _ ⟨⟩
    decide

theorem Printed.ends {ls : List (TokenKind × String)} {cs : List Char} (h : Printed true ls cs) :
    Ends cs := by
  cases h with
  | stop hfiller =>
    have hends := hfiller.ends [] nofun
    rwa [List.append_nil] at hends
  | newline hfiller _ =>
    refine hfiller.ends _ ?_
    rintro _ ⟨⟩
    decide
  | lexeme separators hspaced _ _ =>
    rw [List.append_assoc]
    exact ends_append separators fun hnil => absurd hnil (hspaced rfl)

theorem Printed.lexemes_tokens {spaced : Bool} {ls : List (TokenKind × String)} {cs : List Char}
    (h : Printed spaced ls cs) (offset line : Nat) :
    lexemes (⟨cs, offset, line⟩ : Cursor).tokens = ls ++ [(.eof, "")] := by
  induction h generalizing offset line with
  | stop hfiller =>
    obtain ⟨stop, hskip⟩ := Cursor.lexemes_filler hfiller [] nofun offset line
    obtain ⟨t, hkind, htext, ht⟩ := Cursor.tokens_nil stop line
    rw [List.append_nil] at hskip
    rw [hskip, ht, lexemes_cons (by rw [hkind]; decide), hkind, htext]
    rfl
  | newline hfiller _ ih =>
    obtain ⟨stop, hskip⟩ := Cursor.lexemes_filler hfiller ('\n' :: _)
      (by rintro _ ⟨⟩; rfl) offset line
    obtain ⟨t, hkind, htext, ht⟩ := Cursor.tokens_newline _ stop line
    rw [hskip, ht, lexemes_cons (by rw [hkind]; decide), hkind, htext, ih]
    rfl
  | lexeme separators _ hlexeme hrest ih =>
    obtain ⟨stop, hgap⟩ := Cursor.tokens_gap separators _ offset line
    obtain ⟨stop', htoken⟩ := Cursor.lexemes_takesOff (takesOff_lexeme hrest.ends hlexeme)
      hlexeme.kind_ne stop line
    rw [List.append_assoc, hgap, htoken, ih]
    rfl

/-- The tokens of a printed text, without the comments, are the lexemes and the end of the file. -/
theorem tokenize_printed {ls : List (TokenKind × String)} {source : String}
    (h : Printed false ls source.toList) :
    lexemes (tokenize source) = ls ++ [(.eof, "")] :=
  h.lexemes_tokens 0 1

theorem tokenize_printed_objective :
    Printed false [(.max, "max"), (.number, "2.5"), (.ident, "x_1"), (.newline, "\n"), (.eq, "=="),
      (.number, "-.5e1")] "max 2.5\tx_1 # costs\n == -.5e1\r".toList ∧
    lexemes (tokenize "max 2.5\tx_1 # costs\n == -.5e1\r") =
      [(.max, "max"), (.number, "2.5"), (.ident, "x_1"), (.newline, "\n"), (.eq, "=="),
        (.number, "-.5e1"), (.eof, "")] := by
  have hspace : ∀ c ∈ [' '], isSeparator c = true := List.forall_mem_singleton.2 rfl
  have htab : ∀ c ∈ ['\t'], isSeparator c = true := List.forall_mem_singleton.2 rfl
  have hreturn : ∀ c ∈ ['\r'], isSeparator c = true := List.forall_mem_singleton.2 rfl
  have hnodigit : ∀ c ∈ ([] : List Char), c.isDigit = true := nofun
  have hone : ∀ c ∈ ['1'], c.isDigit = true := List.forall_mem_singleton.2 rfl
  have htwo : ∀ c ∈ ['2'], c.isDigit = true := List.forall_mem_singleton.2 rfl
  have hfive : ∀ c ∈ ['5'], c.isDigit = true := List.forall_mem_singleton.2 rfl
  have hexponent : IsExponent ['e', '1'] := .some (.inl rfl) (.inl rfl) hone (by decide)
  have hlow : IsNumeral "-.5e1".toList :=
    .mk (.inr (.inl rfl)) hnodigit (.some hfive) hexponent (.inr (by decide))
  have hhigh : IsNumeral "2.5".toList :=
    .mk (.inl rfl) htwo (.some hfive) .none (.inl (by decide))
  have hothers : ∀ c ∈ "_1".toList, isAlphanumeric c = true ∨ c = '_' :=
    List.forall_mem_cons.2 ⟨.inr rfl, List.forall_mem_singleton.2 (.inl rfl)⟩
  have hname : IsLexeme .ident "x_1" := .ident (.inl (by decide)) hothers (by decide)
  have hcomment : IsFiller " # costs".toList := .comment hspace (by decide)
  have hlast : Printed true [(.number, "-.5e1")] " -.5e1\r".toList :=
    .lexeme hspace (by decide) (.number hlow) (.stop (.gap hreturn))
  have hrow : Printed false [(.eq, "=="), (.number, "-.5e1")] " == -.5e1\r".toList :=
    .lexeme hspace nofun (.eq (.inr rfl)) hlast
  have hprinted : Printed false [(.max, "max"), (.number, "2.5"), (.ident, "x_1"),
      (.newline, "\n"), (.eq, "=="), (.number, "-.5e1")]
      "max 2.5\tx_1 # costs\n == -.5e1\r".toList :=
    .lexeme (List.forall_mem_nil _) nofun (.max (.inl rfl))
      (.lexeme hspace (by decide) (.number hhigh)
        (.lexeme htab (by decide) hname (.newline hcomment hrow)))
  exact ⟨hprinted, tokenize_printed hprinted⟩

end PenaltySimplex.Format
