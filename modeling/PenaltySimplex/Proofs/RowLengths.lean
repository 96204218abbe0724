import PenaltySimplex.Proofs.ParserErrors

/-!
# PenaltySimplex.Proofs.RowLengths

Which lines are refused by their lengths. The objective and the rows need as many coefficients as
the header says. `objectiveLength` and `rowLength` count the coefficients at the front of a line,
and an error about a length is about a line after the header whose count is another one
(`refuses_input`).
-/

namespace PenaltySimplex.Format

/-! ## The coefficients of a line -/

def Token.isNumber (t : Token) : Bool := t.kind == .number

/-- The line of an objective without its sense. -/
def afterSense : List Token → List Token
  | [] => []
  | t :: ts => if (Parse.senseOf t.kind).isSome then ts else t :: ts

/-- The number of coefficients at the front of an objective. -/
def objectiveLength (line : List Token) : Nat :=
  ((afterSense line).takeWhile Token.isNumber).length

/-- The number of coefficients at the front of a row. Without a comparison the last number is not
one of them. -/
def rowLength (line : List Token) : Nat :=
  let numbers := (line.takeWhile Token.isNumber).length
  if (Parse.comparisonOf (Parse.kindOf (line.dropWhile Token.isNumber))).isSome then numbers
  else numbers - 1

theorem isNumber_of_values {line : List Token} {vs : List Float} (h : Values line vs) :
    ∀ t ∈ line, t.isNumber = true := by
  induction h with
  | nil => exact fun t ht => absurd ht List.not_mem_nil
  | cons hfirst _ ih => exact List.forall_mem_cons.2 ⟨beq_iff_eq.2 hfirst.kind, ih⟩

theorem takeWhile_isNumber {line more : List Token} {vs : List Float} (h : Values line vs)
    (hmore : Parse.kindOf more ≠ .number) : (line ++ more).takeWhile Token.isNumber = line := by
  rw [List.takeWhile_append_of_pos (isNumber_of_values h)]
  cases more with
  | nil => rw [List.takeWhile_nil, List.append_nil]
  | cons t more =>
    have hkind : ¬t.isNumber = true := fun hnumber => hmore (beq_iff_eq.1 hnumber)
    rw [List.takeWhile_cons_of_neg hkind, List.append_nil]

theorem dropWhile_isNumber {line more : List Token} {vs : List Float} (h : Values line vs)
    (hmore : Parse.kindOf more ≠ .number) : (line ++ more).dropWhile Token.isNumber = more := by
  rw [List.dropWhile_append_of_pos (isNumber_of_values h)]
  cases more with
  | nil => rfl
  | cons t more => exact List.dropWhile_cons_of_neg fun hnumber => hmore (beq_iff_eq.1 hnumber)

/-- An error about a length says how many coefficients are found where another number is expected,
and on which line the tokens start that have them. -/
structure LengthError (width : Nat) (tokens : List Token) (count line expected found : Nat) :
    Prop where
  expected_eq : expected = width
  found_eq : found = count
  ne : found ≠ expected
  first : ∃ t more, tokens = t :: more ∧ t.line = line

/-- An error about a length comes after the header, and is about the objective or about a row. -/
def LengthRefused (lines : Lines) (line expected found : Nat) : Prop :=
  ∃ header height width before tokens j after,
    lines = header :: (before ++ (tokens, j) :: after) ∧
      HeaderLine header.1 height width ∧
      if before = [] then
        LengthError width (afterSense tokens) (objectiveLength tokens) line expected found
      else LengthError width tokens (rowLength tokens) line expected found

/-! ## First lines -/

namespace Parse

/-- What is left after the front of a line is the rest of that line and what ends it. -/
theorem exists_more {front left line rest end_ : List Token}
    (hfront : ∀ t ∈ front, t.endsLine = false) (hend : LineEnd rest end_)
    (h : front ++ left = line ++ rest) : ∃ more, line = front ++ more ∧ left = more ++ rest := by
  obtain ⟨more, rfl, rfl⟩ | ⟨more, rfl, rfl⟩ := List.append_eq_append_iff.1 h
  · exact ⟨more, rfl, rfl⟩
  · cases more with
    | nil => exact ⟨[], by simp, rfl⟩
    | cons t more =>
      have hinner := hfront t (List.mem_append_right line List.mem_cons_self)
      obtain hkind | hkind := kindOf_of_lineEnd hend
      · exact absurd hkind (kind_ne_newline hinner)
      · exact absurd hkind (kind_ne_eof hinner)

/-- The next token is of the line, or both have come to their ends. -/
theorem kindOf_more {more rest end_ : List Token} (hend : LineEnd rest end_) :
    kindOf more = kindOf (more ++ rest) ∨
      kindOf more = .eof ∧ (kindOf (more ++ rest) = .newline ∨ kindOf (more ++ rest) = .eof) := by
  cases more with
  | nil => exact Or.inr ⟨rfl, kindOf_of_lineEnd hend⟩
  | cons t more => exact Or.inl rfl

/-- The first of the lines starts with what the tokens start with. -/
theorem Holds.exists_first {ts front left : List Token} {lines : Lines} (h : Holds ts lines)
    (hcontent : content ts = front ++ left) (hne : front ≠ [])
    (hfront : ∀ t ∈ front, t.endsLine = false) :
    ∃ more j others, lines = (front ++ more, j) :: others ∧
      (kindOf more = kindOf left ∨
        kindOf more = .eof ∧ (kindOf left = .newline ∨ kindOf left = .eof)) := by
  obtain ⟨k, hlaid, rfl⟩ := h
  rw [hcontent] at hlaid ⊢
  cases front with
  | nil => exact absurd rfl hne
  | cons t front =>
    obtain ⟨line, rest, end_, j, heq, _, _, hend, _, hfirst⟩ :=
      hlaid.exists_first (hfront t List.mem_cons_self)
    obtain ⟨more, rfl, rfl⟩ := exists_more hfront hend heq
    exact ⟨more, k, _, hfirst, kindOf_more hend⟩

theorem Holds.skip {ts : List Token} {lines : Lines} (h : Holds ts lines) :
    Holds (ts.dropWhile Token.isBlank) lines := by
  obtain ⟨k, hlaid, rfl⟩ := h
  obtain ⟨k', hskip, hlines⟩ := hlaid.skip
  rw [← content_dropBlank] at hskip hlines
  exact ⟨k', hskip, hlines.symm⟩

/-! ## Refusals -/

/-- A parser that refuses the length of a line of a text stands in a relation to the lines that
the tokens hold. -/
def Refuses {β : Type} (source : String) (p : Parse β)
    (B : Lines → Nat → Nat → Nat → Prop) : Prop :=
  ∀ ts lines line expected found left, ts <:+ tokenize source → Holds ts lines →
    p ts = .error (.rowLength line expected found) left → B lines line expected found

section Refuses

variable {β γ : Type} {source : String}

theorem TakesFront.ne_rowLength {p : Parse β} (hp : TakesFront false p) {k n f : Nat}
    {ts left : List Token} : p ts ≠ .error (.rowLength k n f) left := by
  intro herror
  obtain ⟨hlengths, _⟩ := hp.points herror
  cases hlengths

theorem refuses_of_front {p : Parse β} (hp : TakesFront false p)
    (B : Lines → Nat → Nat → Nat → Prop) : Refuses source p B :=
  fun _ _ _ _ _ _ _ _ herror => absurd herror hp.ne_rowLength

theorem Refuses.bind {p : Parse β} {f : β → Parse γ} {R : Lines → β → Lines → Prop}
    {B : Lines → Nat → Nat → Nat → Prop} {C : β → Lines → Nat → Nat → Nat → Prop}
    (hfront : TakesFront true p) (hreads : Reads p R) (hp : Refuses source p B)
    (hf : ∀ x, Refuses source (f x) (C x)) :
    Refuses source (p >>= f) fun lines line expected found =>
      B lines line expected found ∨
        ∃ x others, R lines x others ∧ C x others line expected found := by
  intro ts lines line expected found left hsuffix hholds herror
  obtain herror | ⟨x, middle, hok, herror⟩ := bind_eq_error.1 herror
  · exact Or.inl (hp ts lines line expected found left hsuffix hholds herror)
  · obtain ⟨others, hR, hmiddle⟩ := hreads.sound hholds hok
    have hleft := (hfront.suffix hok).trans hsuffix
    exact Or.inr ⟨x, others, hR, hf x middle others line expected found left hleft hmiddle herror⟩

theorem Refuses.bind_last {p : Parse β} {f : β → Parse γ}
    {B : Lines → Nat → Nat → Nat → Prop} (hp : Refuses source p B)
    (hf : ∀ x, TakesFront false (f x)) : Refuses source (p >>= f) B := by
  intro ts lines line expected found left hsuffix hholds herror
  obtain herror | ⟨x, middle, _, herror⟩ := bind_eq_error.1 herror
  · exact hp ts lines line expected found left hsuffix hholds herror
  · exact absurd herror (hf x).ne_rowLength

/-- A parser of a line is run after the blank lines before it. -/
theorem refuses_line {p : Parse β} {B : Lines → Nat → Nat → Nat → Prop}
    (hp : ∀ ts lines line expected found left, ts <:+ tokenize source → Settled ts →
      Holds ts lines → p ts = .error (.rowLength line expected found) left →
      B lines line expected found) : Refuses source (skipBlankLines >>= fun _ => p) B := by
  intro ts lines line expected found left hsuffix hholds herror
  obtain herror | ⟨_, middle, hskip, herror⟩ := bind_eq_error.1 herror
  · exact absurd herror takesFront_skipBlankLines.ne_rowLength
  · cases hskip
    exact hp _ lines line expected found left ((List.dropWhile_suffix _).trans hsuffix)
      (settled_dropBlank ts) hholds.skip herror

theorem Refuses.mono {p : Parse β} {B C : Lines → Nat → Nat → Nat → Prop}
    (hp : Refuses source p B)
    (h : ∀ lines line expected found, B lines line expected found → C lines line expected found) :
    Refuses source p C :=
  fun ts lines line expected found left hsuffix hholds herror =>
    h _ _ _ _ (hp ts lines line expected found left hsuffix hholds herror)

end Refuses

theorem checkLength_eq_error {m line found k n f : Nat} {ts left : List Token}
    (h : checkLength m line found ts = .error (.rowLength k n f) left) :
    k = line ∧ n = m ∧ f = found ∧ found ≠ m := by
  unfold checkLength at h
  split at h
  · cases h
  · rename_i hne
    cases h
    exact ⟨rfl, rfl, rfl, hne⟩

theorem objectiveOn_eq_error {m line k n f : Nat} {ts left : List Token}
    (h : objectiveOn m line ts = .error (.rowLength k n f) left) :
    ∃ vs middle, numbers ts = .ok vs middle ∧ vs ≠ [] ∧
      k = line ∧ n = m ∧ f = vs.length ∧ vs.length ≠ m := by
  obtain herror | ⟨vs, middle, hnumbers, herror⟩ := bind_eq_error.1 h
  · exact absurd herror takesFront_numbers.ne_rowLength
  · refine ⟨vs, middle, hnumbers, ?_⟩
    split at herror
    · obtain herror | ⟨_, _, hok, _⟩ := bind_eq_error.1 herror
      · exact absurd herror (takesFront_refuse .objective).ne_rowLength
      · cases hok
    · rename_i hne
      obtain herror | ⟨_, _, _, hok⟩ := bind_eq_error.1 herror
      · exact ⟨fun hnil => hne (by rw [hnil]; rfl), checkLength_eq_error herror⟩
      · cases hok

theorem rowOn_eq_error {m line k n f : Nat} {ts left : List Token}
    (h : rowOn m line ts = .error (.rowLength k n f) left) :
    ∃ vs us o us' x us'', numbers ts = .ok vs us ∧ comparison? us = .ok o us' ∧
      rightHandSide vs o us' = .ok x us'' ∧
      k = line ∧ n = m ∧ f = x.1.length ∧ x.1.length ≠ m := by
  obtain herror | ⟨vs, us, hnumbers, herror⟩ := bind_eq_error.1 h
  · exact absurd herror takesFront_numbers.ne_rowLength
  obtain herror | ⟨o, us', hcomparison, herror⟩ := bind_eq_error.1 herror
  · exact absurd herror takesFront_comparison?.ne_rowLength
  obtain herror | ⟨x, us'', hrhs, herror⟩ := bind_eq_error.1 herror
  · exact absurd herror (takesFront_rightHandSide vs o).ne_rowLength
  refine ⟨vs, us, o, us', x, us'', hnumbers, hcomparison, hrhs, ?_⟩
  obtain herror | ⟨_, _, _, herror⟩ := bind_eq_error.1 herror
  · exact checkLength_eq_error herror
  · exact absurd herror (takesFront_endLine.bind fun _ => takesFront_pure _).ne_rowLength

/-- The line of a token is that of the content from there on. -/
theorem lineOf_content_of_suffix {source : String} {ts : List Token}
    (h : ts <:+ tokenize source) : lineOf (content ts) = lineOf ts := by
  by_cases hnil : ts = []
  · rw [hnil]
    rfl
  · obtain ⟨before, hdivision⟩ := (division_tokenize source).of_suffix h hnil
    rw [hdivision.lineOf_content, hdivision.lineOf_tokens]

theorem afterSense_of_sense {t : Token} {s : Sense} (h : senseOf t.kind = some s)
    (ts : List Token) : afterSense (t :: ts) = ts :=
  if_pos (by rw [h]; rfl)

theorem afterSense_of_none {ts : List Token} (h : senseOf (kindOf ts) = none) :
    afterSense ts = ts := by
  cases ts with
  | nil => rfl
  | cons t ts => exact if_neg (by rw [show senseOf t.kind = none from h]; decide)

theorem endsLine_of_sense {t : Token} {s : Sense} (h : senseOf t.kind = some s) :
    t.endsLine = false := by
  obtain ⟨hkind, _⟩ | ⟨hkind, _⟩ := senseOf_eq_some_iff.1 h
  · exact endsLine_eq_false (by rw [hkind]; decide) (by rw [hkind]; decide)
  · exact endsLine_eq_false (by rw [hkind]; decide) (by rw [hkind]; decide)

/-- A sense, if there is one, and numbers make up the front of a line. -/
theorem exists_front {us us' left line : List Token} {s : Sense} {vs : List Float}
    (hsense : TakesSense us s us') (hvalues : Values line vs) (hne : line ≠ [])
    (hus' : us' = line ++ left) :
    ∃ front, us = front ++ left ∧ front ≠ [] ∧ (∀ t ∈ front, t.endsLine = false) ∧
      ∀ more, afterSense (front ++ more) = line ++ more := by
  obtain ⟨t, ht, rfl⟩ | ⟨hnone, _, rfl⟩ := hsense
  · refine ⟨t :: line, by rw [hus']; rfl, List.cons_ne_nil t line, ?_, fun more => ?_⟩
    · exact List.forall_mem_cons.2 ⟨endsLine_of_sense ht, hvalues.endsLine⟩
    · exact afterSense_of_sense ht (line ++ more)
  · refine ⟨line, hus', hne, hvalues.endsLine, fun more => ?_⟩
    refine afterSense_of_none ?_
    cases hvalues with
    | nil => exact absurd rfl hne
    | cons hfirst _ =>
      rw [List.cons_append, kindOf, hfirst.kind]
      rfl

theorem ne_number_of_more {more left : List Token} (hleft : kindOf left ≠ .number)
    (h : kindOf more = kindOf left ∨
      kindOf more = .eof ∧ (kindOf left = .newline ∨ kindOf left = .eof)) :
    kindOf more ≠ .number := by
  obtain hkind | ⟨hkind, _⟩ := h
  · rwa [hkind]
  · rw [hkind]
    decide

theorem refuses_objective (source : String) (m : Nat) :
    Refuses source (skipBlankLines >>= fun _ => senseAndObjective m)
      fun lines line expected found => ∃ tokens j others, lines = (tokens, j) :: others ∧
        LengthError m (afterSense tokens) (objectiveLength tokens) line expected found := by
  refine refuses_line fun ts lines line expected found left hsuffix hsettled hholds herror => ?_
  obtain herror | ⟨s, us, hsense, herror⟩ := bind_eq_error.1 herror
  · exact absurd herror takesFront_sense.ne_rowLength
  have hfront : TakesFront false sense := takesFront_sense
  have hus := (hfront.suffix hsense).trans hsuffix
  obtain herror | ⟨_, _, _, herror⟩ := bind_eq_error.1 herror
  · rw [objective_apply] at herror
    obtain ⟨vs, us', hnumbers, hne, rfl, rfl, rfl, hlength⟩ := objectiveOn_eq_error herror
    have htakes := (yields_sense hsettled s _).1 ⟨us, hsense, rfl⟩
    obtain ⟨nums, hvalues, hcontent, hnumber⟩ := (yields_numbers us vs _).1 ⟨us', hnumbers, rfl⟩
    have hnums : nums ≠ [] := by
      rintro rfl
      exact hne (List.forall₂_nil_left_iff.1 hvalues)
    obtain ⟨front, hfront, hnil, hinner, hafter⟩ := exists_front htakes hvalues hnums hcontent
    obtain ⟨more, j, others, hlines, hmore⟩ := hholds.exists_first hfront hnil hinner
    refine ⟨front ++ more, j, others, hlines, rfl, ?_, hlength, ?_⟩
    · rw [objectiveLength, hafter, takeWhile_isNumber hvalues (ne_number_of_more hnumber hmore)]
      exact hvalues.length_eq.symm
    · rw [hafter, ← lineOf_content_of_suffix hus, hcontent]
      cases nums with
      | nil => exact absurd rfl hnums
      | cons t nums => exact ⟨t, nums ++ more, rfl, rfl⟩
  · exact absurd herror (takesFront_endLine.bind fun _ => takesFront_pure _).ne_rowLength

theorem rowLength_of_comparison {nums more : List Token} {t : Token} {c : Comparison}
    {vs : List Float} (hvalues : Values nums vs) (ht : t.kind = comparisonKind c) :
    rowLength (nums ++ t :: more) = vs.length := by
  have hnumber : kindOf (t :: more) ≠ .number := ht.trans_ne (comparisonKind_ne_number c)
  have hcomparison : (comparisonOf (kindOf (t :: more))).isSome = true := by
    rw [show comparisonOf (kindOf (t :: more)) = some c from comparisonOf_eq_some_iff.2 ht]
    rfl
  rw [rowLength, takeWhile_isNumber hvalues hnumber, dropWhile_isNumber hvalues hnumber,
    if_pos hcomparison, hvalues.length_eq]

theorem rowLength_of_none {nums more : List Token} {vs : List Float} (hvalues : Values nums vs)
    (hnumber : kindOf more ≠ .number) (hnone : comparisonOf (kindOf more) = none) :
    rowLength (nums ++ more) = vs.length - 1 := by
  have hcomparison : ¬(comparisonOf (kindOf more)).isSome = true := by
    rw [hnone]
    decide
  rw [rowLength, takeWhile_isNumber hvalues hnumber, dropWhile_isNumber hvalues hnumber,
    if_neg hcomparison, hvalues.length_eq]

theorem comparisonOf_more {more left : List Token} (hleft : comparisonOf (kindOf left) = none)
    (h : kindOf more = kindOf left ∨
      kindOf more = .eof ∧ (kindOf left = .newline ∨ kindOf left = .eof)) :
    comparisonOf (kindOf more) = none := by
  obtain hkind | ⟨hkind, _⟩ := h
  · rwa [hkind]
  · rw [hkind]
    rfl

theorem exists_first_of_lineOf {front more left : List Token} {line : Nat} (hne : front ≠ [])
    (hline : lineOf (front ++ left) = line) :
    ∃ t others, front ++ more = t :: others ∧ t.line = line := by
  cases front with
  | nil => exact absurd rfl hne
  | cons t front => exact ⟨t, front ++ more, rfl, hline⟩

theorem refuses_row (source : String) (m : Nat) :
    Refuses source (skipBlankLines >>= fun _ => row m)
      fun lines line expected found => ∃ tokens j others, lines = (tokens, j) :: others ∧
        LengthError m tokens (rowLength tokens) line expected found := by
  refine refuses_line fun ts lines line expected found left _ hsettled hholds herror => ?_
  rw [row_apply] at herror
  obtain ⟨vs, us, o, us', x, us'', hnumbers, hcomparison, hrhs, rfl, rfl, rfl, hlength⟩ :=
    rowOn_eq_error herror
  rw [← lineOf_content hsettled]
  obtain ⟨nums, hvalues, hcontent, hnumber⟩ := (yields_numbers _ vs _).1 ⟨us, hnumbers, rfl⟩
  have htakes := (yields_comparison? (settled_numbers hnumbers) o _).1 ⟨us', hcomparison, rfl⟩
  have hright := (yields_rightHandSide vs o us' x _).1 ⟨us'', hrhs, rfl⟩
  obtain ⟨t, c, ht, rfl, hus⟩ | ⟨hnone, rfl, hus⟩ := htakes
  · -- the front of the line ends with the comparison
    obtain ⟨_, _, hx, _⟩ | ⟨hnone, _⟩ := hright
    · have hfront : content ts = (nums ++ [t]) ++ content us' := by
        rw [hcontent, hus, List.append_assoc]
        rfl
      have hne : nums ++ [t] ≠ [] := List.append_ne_nil_of_right_ne_nil _ (List.cons_ne_nil t [])
      have hinner : ∀ u ∈ nums ++ [t], u.endsLine = false :=
        List.forall_mem_append.2
          ⟨hvalues.endsLine, List.forall_mem_singleton.2 (endsLine_of_comparison ht)⟩
      obtain ⟨more, j, others, hlines, _⟩ := hholds.exists_first hfront hne hinner
      refine ⟨_, j, others, hlines, rfl, ?_, hlength, exists_first_of_lineOf hne (by rw [hfront])⟩
      rw [List.append_assoc, List.singleton_append, rowLength_of_comparison hvalues ht, hx]
    · cases hnone
  · -- the front of the line is the numbers, as there is one
    obtain ⟨_, hsome, _⟩ | ⟨_, _, hvs, _⟩ := hright
    · cases hsome
    · have hne : nums ≠ [] := by
        rintro rfl
        rw [List.forall₂_nil_left_iff.1 hvalues] at hvs
        exact List.append_ne_nil_of_right_ne_nil _ (List.cons_ne_nil _ _) hvs.symm
      obtain ⟨more, j, others, hlines, hmore⟩ :=
        hholds.exists_first hcontent hne hvalues.endsLine
      refine ⟨_, j, others, hlines, rfl, ?_, hlength, exists_first_of_lineOf hne (by rw [hcontent])⟩
      rw [rowLength_of_none hvalues (ne_number_of_more hnumber hmore)
        (comparisonOf_more hnone hmore), hvs, List.length_append]
      rfl

theorem refuses_rows (source : String) (m n : Nat) :
    Refuses source (rows m n) fun lines line expected found =>
      ∃ before tokens j after, lines = before ++ (tokens, j) :: after ∧
        LengthError m tokens (rowLength tokens) line expected found := by
  induction n with
  | zero => exact refuses_of_front (takesFront_pure []) _
  | succ n ih =>
    rw [rows_succ]
    have hfront := takesFront_skipBlankLines.bind fun _ => takesFront_row m
    refine ((refuses_row source m).bind hfront (reads_row m) fun first =>
      ih.bind_last fun others => takesFront_pure (first :: others)).mono ?_
    rintro _ line expected found (⟨tokens, j, others, rfl, h⟩ |
      ⟨_, _, ⟨first, k, rfl, _⟩, before, tokens, j, after, rfl, h⟩)
    · exact ⟨[], tokens, j, others, rfl, h⟩
    · exact ⟨(first, k) :: before, tokens, j, after, rfl, h⟩

theorem refuses_input (source : String) : Refuses source input LengthRefused := by
  rw [input_eq]
  have hheader : Refuses source (skipBlankLines >>= fun _ => header) fun _ _ _ _ => False :=
    refuses_of_front (takesFront_skipBlankLines.bind fun _ => takesFront_header) _
  refine (hheader.bind (takesFront_skipBlankLines.bind fun _ => takesFront_header)
    (yieldsLine_header.reads fun _ _ _ h => h.endsLine) fun x =>
    (refuses_objective source x.2).bind
      (takesFront_skipBlankLines.bind fun _ => takesFront_senseAndObjective x.2)
      ((yieldsLine_senseAndObjective x.2).reads fun _ _ _ h => h.1.endsLine h.2.1) fun y =>
    (refuses_rows source x.2 x.1).bind_last fun xs =>
      takesFront_endOfFile.bind fun _ => takesFront_pure _).mono ?_
  rintro _ line expected found (hfalse | ⟨x, _, ⟨header, j, rfl, hheader⟩,
    ⟨tokens, k, others, rfl, h⟩ |
      ⟨y, _, ⟨objective, k, rfl, _⟩, before, tokens, k', after, rfl, h⟩⟩)
  · exact hfalse.elim
  · exact ⟨(header, j), x.1, x.2, [], tokens, k, others, rfl, hheader, h⟩
  · exact ⟨(header, j), x.1, x.2, (objective, k) :: before, tokens, k', after, rfl, hheader, h⟩

end Parse

end PenaltySimplex.Format
