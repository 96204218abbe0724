import PenaltySimplex.Proofs.ParserErrors

/-!
# PenaltySimplex.Proofs.AlikeTokens

Lists of tokens between which the parsers do not tell.

* `Alike lost ts us`: read from a token that is no comment, the two lists differ in comments, in
  lines without content, and in what comes after a line from which on the first list is `lost`.
* `Agrees lost S`: two runs end with the same value, and then `S` joins the tokens that are left,
  or with the same error. The first may also fail on tokens that are lost.
* `Tracks lost p`: from alike tokens between two lines, the runs of `p` agree or the first one ends
  where the tokens are lost. `tracks_input` and `tracks_reference` say so of the parsers of files.
-/

namespace PenaltySimplex.Format

namespace Parse

/-- What a run comes to. -/
abbrev Result (β : Type) := EStateM.Result ParseError (List Token) β

variable {lost : List Token → Prop} {β γ : Type} {ts us : List Token}

/-! ## Alike tokens -/

inductive Alike (lost : List Token → Prop) : List Token → List Token → Prop where
  | word {t : Token} {ts us : List Token} (inner : t.endsLine = false) (content : t.kind ≠ .comment)
      (line : lineOf ts = lineOf us)
      (rest : Alike lost (ts.dropWhile Token.isComment) (us.dropWhile Token.isComment)) :
      Alike lost (t :: ts) (t :: us)
  | newline {t : Token} {ts us : List Token} (kind : t.kind = .newline)
      (rest : Alike lost (ts.dropWhile Token.isBlank) (us.dropWhile Token.isBlank)) :
      Alike lost (t :: ts) (t :: us)
  | passed {t : Token} {ts us : List Token} (kind : t.kind = .newline)
      (rest : lost (ts.dropWhile Token.isBlank)) : Alike lost (t :: ts) (t :: us)
  | eof {t : Token} {ts us : List Token} (kind : t.kind = .eof) : Alike lost (t :: ts) (t :: us)
  | ended {ts us : List Token} (kind : kindOf ts = .eof) (here : lost ts)
      (newline : kindOf us = .newline) (line : lineOf ts = lineOf us) : Alike lost ts us

/-- Alike within a line, where a comment may come next. -/
structure Within (lost : List Token → Prop) (ts us : List Token) : Prop where
  line : lineOf ts = lineOf us
  alike : Alike lost (ts.dropWhile Token.isComment) (us.dropWhile Token.isComment)

/-- Alike between two lines, where lines without content may come next. -/
def Between (lost : List Token → Prop) (ts us : List Token) : Prop :=
  lost (ts.dropWhile Token.isBlank) ∨
    Alike lost (ts.dropWhile Token.isBlank) (us.dropWhile Token.isBlank)

theorem kind_ne_comment_of_endsLine {t : Token} (h : t.endsLine = true) : t.kind ≠ .comment := by
  intro hkind
  rw [Token.endsLine, hkind] at h
  cases h

theorem settled_of_endsLine {t : Token} (h : t.endsLine = true) (ts : List Token) :
    Settled (t :: ts) :=
  kind_ne_comment_of_endsLine h

theorem Alike.settled (h : Alike lost ts us) : Settled ts ∧ Settled us := by
  cases h with
  | word _ content _ _ => exact ⟨content, content⟩
  | newline kind _ =>
    have hend := endsLine_of_newline kind
    exact ⟨settled_of_endsLine hend _, settled_of_endsLine hend _⟩
  | passed kind _ =>
    have hend := endsLine_of_newline kind
    exact ⟨settled_of_endsLine hend _, settled_of_endsLine hend _⟩
  | eof kind =>
    have hend := endsLine_of_eof kind
    exact ⟨settled_of_endsLine hend _, settled_of_endsLine hend _⟩
  | ended kind _ newline _ =>
    exact ⟨by rw [Settled, kind]; decide, by rw [Settled, newline]; decide⟩

theorem Alike.line (h : Alike lost ts us) : lineOf ts = lineOf us := by
  cases h with
  | word => rfl
  | newline => rfl
  | passed => rfl
  | eof => rfl
  | ended _ _ _ line => exact line

theorem dropComments_of_settled (h : Settled ts) : ts.dropWhile Token.isComment = ts := by
  cases ts with
  | nil => rfl
  | cons t ts => exact List.dropWhile_cons_of_neg fun hcomment => h (beq_iff_eq.1 hcomment)

theorem Alike.within (h : Alike lost ts us) : Within lost ts us := by
  refine ⟨h.line, ?_⟩
  rwa [dropComments_of_settled h.settled.1, dropComments_of_settled h.settled.2]

theorem Within.alike_word {t : Token} (h : Within lost ts us) (inner : t.endsLine = false)
    (content : t.kind ≠ .comment) : Alike lost (t :: ts) (t :: us) :=
  .word inner content h.line h.alike

theorem Between.alike_newline {t : Token} (h : Between lost ts us) (kind : t.kind = .newline) :
    Alike lost (t :: ts) (t :: us) :=
  h.elim (.passed kind) (.newline kind)

/-! ## Runs that agree -/

inductive Agrees (lost : List Token → Prop) (S : List Token → List Token → Prop) :
    Result β → Result β → Prop where
  | ok (x : β) {left left' : List Token} (rest : S left left') :
      Agrees lost S (.ok x left) (.ok x left')
  | error (e : ParseError) {left left' : List Token} :
      Agrees lost S (.error e left) (.error e left')
  | unseen {ts left : List Token} {e : ParseError} {r : Result β} (here : lost ts)
      (points : PointsAt true ts e) : Agrees lost S (.error e left) r

section Runs

variable {S T : List Token → List Token → Prop}

theorem Agrees.bind {p : Parse β} {f : β → Parse γ} (hp : Agrees lost S (p ts) (p us))
    (hf : ∀ x left left', S left left' → Agrees lost T (f x left) (f x left')) :
    Agrees lost T ((p >>= f) ts) ((p >>= f) us) := by
  show Agrees lost T (EStateM.bind p f ts) (EStateM.bind p f us)
  unfold EStateM.bind
  generalize p ts = r at hp
  generalize p us = r' at hp
  cases hp with
  | ok x rest => exact hf x _ _ rest
  | error e => exact .error e
  | unseen here points => exact .unseen here points

/-- What follows a refusal under a condition. -/
theorem Agrees.unless {c : Prop} [Decidable c] {p : Parse Unit} {f : Unit → Parse β}
    (hp : Agrees lost S (p ts) (p us)) (hS : S ts us)
    (hf : ∀ left left', S left left' → Agrees lost T (f () left) (f () left')) :
    Agrees lost T ((if c then p >>= f else f ()) ts) ((if c then p >>= f else f ()) us) := by
  split
  · exact hp.bind fun _ => hf
  · exact hf ts us hS

end Runs

/-! ## Parsers within a line -/

/-- The same token of a line comes next, or the line ends. -/
theorem Alike.word_or_end (h : Alike lost ts us) :
    (∃ t ts' us', ts = t :: ts' ∧ us = t :: us' ∧ t.endsLine = false ∧ Within lost ts' us') ∨
      (∃ t ts' us', ts = t :: ts' ∧ us = t :: us' ∧ t.endsLine = true) ∨
      (kindOf ts = .eof ∧ lost ts ∧ kindOf us = .newline) := by
  cases h with
  | word inner _ line rest => exact Or.inl ⟨_, _, _, rfl, rfl, inner, line, rest⟩
  | newline kind _ => exact Or.inr (Or.inl ⟨_, _, _, rfl, rfl, endsLine_of_newline kind⟩)
  | passed kind _ => exact Or.inr (Or.inl ⟨_, _, _, rfl, rfl, endsLine_of_newline kind⟩)
  | eof kind => exact Or.inr (Or.inl ⟨_, _, _, rfl, rfl, endsLine_of_eof kind⟩)
  | ended kind here newline _ => exact Or.inr (Or.inr ⟨kind, here, newline⟩)

theorem Alike.agrees_refuse {S : List Token → List Token → Prop} (h : Alike lost ts us)
    (expected : Expected) :
    Agrees lost S ((refuse expected : Parse β) ts) ((refuse expected : Parse β) us) := by
  obtain ⟨t, ts', us', rfl, rfl, _⟩ | ⟨t, ts', us', rfl, rfl, _⟩ | ⟨_, here, _⟩ := h.word_or_end
  · exact .error (unexpected expected (t :: ts'))
  · exact .error (unexpected expected (t :: ts'))
  · exact .unseen here (pointsAt_unexpected expected ts)

theorem number_dropComments (expected : Expected) (ts : List Token) :
    number expected ts = number expected (ts.dropWhile Token.isComment) := by
  have hdrop := dropComments_of_settled (settled_dropComments ts)
  unfold number
  rw [hdrop]

theorem number_of_ne (hsettled : Settled ts) (h : kindOf ts ≠ .number) (expected : Expected) :
    number expected ts = .error (unexpected expected ts) ts := by
  unfold number
  rw [dropComments_of_settled hsettled]
  cases ts with
  | nil => rfl
  | cons t ts => exact if_neg h

theorem number_of_number {t : Token} (h : t.kind = .number) (expected : Expected)
    (ts : List Token) : number expected (t :: ts) =
      match t.value? with
      | some v => .ok v ts
      | none => .error (.invalidNumber t.text t.line) ts := by
  have hsettled : Settled (t :: ts) := by
    rw [Settled, kindOf, h]
    decide
  unfold number
  rw [dropComments_of_settled hsettled]
  exact if_pos h

theorem ne_number_of_endsLine {t : Token} (h : t.endsLine = true) : t.kind ≠ .number := by
  intro hkind
  rw [Token.endsLine, hkind] at h
  cases h

theorem Within.agrees_number (h : Within lost ts us) (expected : Expected) :
    Agrees lost (Within lost) (number expected ts) (number expected us) := by
  rw [number_dropComments expected ts, number_dropComments expected us]
  have hsettled := h.alike.settled
  have hcases := h.alike.word_or_end
  generalize ts.dropWhile Token.isComment = ts at hsettled hcases
  generalize us.dropWhile Token.isComment = us at hsettled hcases
  obtain ⟨t, ts, us, rfl, rfl, _, hrest⟩ | ⟨t, ts, us, rfl, rfl, hend⟩ | ⟨heof, here, _⟩ := hcases
  · by_cases hkind : t.kind = .number
    · rw [number_of_number hkind, number_of_number hkind]
      cases t.value? with
      | some v => exact .ok v hrest
      | none => exact .error _
    · rw [number_of_ne hsettled.1 hkind, number_of_ne hsettled.2 hkind]
      exact .error (unexpected expected (t :: ts))
  · have hkind := ne_number_of_endsLine hend
    rw [number_of_ne hsettled.1 hkind, number_of_ne hsettled.2 hkind]
    exact .error (unexpected expected (t :: ts))
  · rw [number_of_ne hsettled.1 (by rw [heof]; decide)]
    exact .unseen here (pointsAt_unexpected expected ts)

theorem numbers_dropComments (ts : List Token) :
    numbers ts = numbers (ts.dropWhile Token.isComment) := by
  induction ts with
  | nil => rfl
  | cons t ts ih =>
    by_cases h : t.kind = .comment
    · have hcomment : t.isComment = true := beq_iff_eq.2 h
      rw [List.dropWhile_cons_of_pos hcomment, ← ih, numbers, h]
    · have hsettled : Settled (t :: ts) := h
      rw [dropComments_of_settled hsettled]

theorem numbers_of_invalid {t : Token} (h : t.kind = .number) (hvalue : t.value? = none)
    (ts : List Token) : numbers (t :: ts) = .error (.invalidNumber t.text t.line) ts := by
  rw [numbers, h]
  simp only [hvalue]

theorem numbers_of_valid {t : Token} {v : Float} (h : t.kind = .number)
    (hvalue : t.value? = some v) (ts : List Token) :
    numbers (t :: ts) = (numbers >>= fun vs => pure (v :: vs)) ts := by
  show _ = EStateM.bind numbers _ ts
  rw [numbers, h, EStateM.bind]
  simp only [hvalue]
  cases numbers ts with
  | ok vs left => rfl
  | error e left => rfl

/-- A run of numbers stops where both lists have something else. -/
theorem Alike.agrees_numbers_of_ne (h : Alike lost ts us) (hts : kindOf ts ≠ .number)
    (hus : kindOf us ≠ .number) : Agrees lost (Alike lost) (numbers ts) (numbers us) := by
  rw [numbers_of_ne_number h.settled.1 hts, numbers_of_ne_number h.settled.2 hus]
  exact .ok [] h

theorem Alike.agrees_numbers_of_end {t : Token} (h : Alike lost (t :: ts) (t :: us))
    (hend : t.endsLine = true) :
    Agrees lost (Alike lost) (numbers (t :: ts)) (numbers (t :: us)) :=
  h.agrees_numbers_of_ne (ne_number_of_endsLine hend) (ne_number_of_endsLine hend)

theorem Alike.agrees_numbers (h : Alike lost ts us) :
    Agrees lost (Alike lost) (numbers ts) (numbers us) := by
  induction h with
  | @word t ts us inner content line rest ih =>
    by_cases hkind : t.kind = .number
    · cases hvalue : t.value? with
      | none =>
        rw [numbers_of_invalid hkind hvalue, numbers_of_invalid hkind hvalue]
        exact .error _
      | some v =>
        rw [numbers_of_valid hkind hvalue, numbers_of_valid hkind hvalue]
        rw [← numbers_dropComments, ← numbers_dropComments] at ih
        exact ih.bind fun vs left left' hleft => .ok (v :: vs) hleft
    · exact (Alike.word inner content line rest).agrees_numbers_of_ne hkind hkind
  | newline kind rest _ =>
    exact (Alike.newline kind rest).agrees_numbers_of_end (endsLine_of_newline kind)
  | passed kind rest =>
    exact (Alike.passed kind rest).agrees_numbers_of_end (endsLine_of_newline kind)
  | eof kind => exact (Alike.eof kind).agrees_numbers_of_end (endsLine_of_eof kind)
  | ended kind here newline line =>
    exact (Alike.ended kind here newline line).agrees_numbers_of_ne (by rw [kind]; decide)
      (by rw [newline]; decide)

theorem Within.agrees_numbers (h : Within lost ts us) :
    Agrees lost (Alike lost) (numbers ts) (numbers us) := by
  rw [numbers_dropComments ts, numbers_dropComments us]
  exact h.alike.agrees_numbers

/-- A parser that takes the next token if its kind stands for something does so in both runs. -/
theorem Alike.optional {p : Parse β} {f : TokenKind → Option β} {default : β}
    (htake : ∀ t ts x, f t.kind = some x → p (t :: ts) = .ok x ts)
    (hleave : ∀ ts, f (kindOf ts) = none → p ts = .ok default ts) (hnewline : f .newline = none)
    (heof : f .eof = none) (h : Alike lost ts us) :
    (∃ x left left', f (kindOf ts) = some x ∧ p ts = .ok x left ∧ p us = .ok x left' ∧
        Within lost left left') ∨
      (p ts = .ok default ts ∧ p us = .ok default us) := by
  obtain ⟨t, ts', us', rfl, rfl, _, hrest⟩ | ⟨t, ts', us', rfl, rfl, hend⟩ |
    ⟨hts, _, hus⟩ := h.word_or_end
  · cases hf : f t.kind with
    | some x => exact Or.inl ⟨x, ts', us', hf, htake t ts' x hf, htake t us' x hf, hrest⟩
    | none => exact Or.inr ⟨hleave (t :: ts') hf, hleave (t :: us') hf⟩
  · have hf : f t.kind = none := by
      obtain hkind | hkind := endsLine_eq_true_iff.1 hend
      · rw [hkind, hnewline]
      · rw [hkind, heof]
    exact Or.inr ⟨hleave (t :: ts') hf, hleave (t :: us') hf⟩
  · exact Or.inr ⟨hleave ts (by rw [hts, heof]), hleave us (by rw [hus, hnewline])⟩

theorem Alike.agrees_sense (h : Alike lost ts us) :
    Agrees lost (Within lost) (sense ts) (sense us) := by
  obtain ⟨s, left, left', _, hts, hus, hrest⟩ | ⟨hts, hus⟩ :=
    h.optional (fun _ ts _ hs => sense_of_word hs ts) (fun _ hs => sense_of_none hs) rfl rfl
  · rw [hts, hus]
    exact .ok s hrest
  · rw [hts, hus]
    exact .ok Sense.minimize h.within

theorem agrees_checkLength {S : List Token → List Token → Prop} (h : S ts us)
    (m line found : Nat) :
    Agrees lost S (checkLength m line found ts) (checkLength m line found us) := by
  unfold checkLength
  split
  · exact .ok () h
  · exact .error _

theorem Within.agrees_rightHandSide (h : Within lost ts us) (vs : List Float) (c : Comparison) :
    Agrees lost (Within lost) (rightHandSide vs (some c) ts) (rightHandSide vs (some c) us) :=
  (h.agrees_number .rightHandSide).bind fun b _ _ hleft => .ok (vs, c, b) hleft

theorem Alike.agrees_rightHandSide (h : Alike lost ts us) (vs : List Float) :
    Agrees lost (Within lost) (rightHandSide vs none ts) (rightHandSide vs none us) := by
  unfold rightHandSide
  split
  · exact .ok _ h.within
  · exact h.agrees_refuse .constraintRow

/-- The comparison and what comes after it. -/
theorem Alike.agrees_comparison? {f : List Float × Comparison × Float → Parse γ}
    {S : List Token → List Token → Prop} (h : Alike lost ts us) (vs : List Float)
    (hf : ∀ x left left', Within lost left left' → Agrees lost S (f x left) (f x left')) :
    Agrees lost S ((comparison? >>= fun o => rightHandSide vs o >>= f) ts)
      ((comparison? >>= fun o => rightHandSide vs o >>= f) us) := by
  have htake : ∀ t ts o, (comparisonOf t.kind).map some = some o →
      comparison? (t :: ts) = .ok o ts := by
    intro t ts o ho
    obtain ⟨c, hc, rfl⟩ := Option.map_eq_some_iff.1 ho
    exact comparison?_of_some hc ts
  have hleave : ∀ ts, (comparisonOf (kindOf ts)).map some = none →
      comparison? ts = .ok none ts :=
    fun ts ho => comparison?_of_none (Option.map_eq_none_iff.1 ho)
  obtain ⟨o, left, left', ho, hts, hus, hrest⟩ | ⟨hts, hus⟩ :=
    h.optional (f := fun k => (comparisonOf k).map some) htake hleave rfl rfl
  · obtain ⟨c, _, rfl⟩ := Option.map_eq_some_iff.1 ho
    rw [bind_of_ok hts, bind_of_ok hus]
    exact (hrest.agrees_rightHandSide vs c).bind hf
  · rw [bind_of_ok hts, bind_of_ok hus]
    exact (h.agrees_rightHandSide vs).bind hf

theorem Within.agrees_objective (h : Within lost ts us) (m : Nat) :
    Agrees lost (Alike lost) (objective m ts) (objective m us) := by
  rw [objective_apply, objective_apply, h.line]
  refine h.agrees_numbers.bind fun vs left left' hleft => ?_
  refine Agrees.unless (hleft.agrees_refuse .objective) hleft fun left left' hleft => ?_
  exact (agrees_checkLength hleft m _ vs.length).bind fun _ _ _ hleft => .ok vs hleft

/-! ## Parsers of lines -/

theorem endLine_of_newline {t : Token} (h : t.kind = .newline) (ts : List Token) :
    endLine (t :: ts) = .ok () ts := by
  have hsettled := settled_of_endsLine (endsLine_of_newline h) ts
  simp only [endLine, dropComments_of_settled hsettled, h]

theorem endLine_of_eof (h : kindOf ts = .eof) : endLine ts = .ok () ts := by
  cases ts with
  | nil => rfl
  | cons t ts =>
    have hkind : t.kind = .eof := h
    have hsettled := settled_of_endsLine (endsLine_of_eof hkind) ts
    simp only [endLine, dropComments_of_settled hsettled, hkind]

theorem endLine_of_inner {t : Token} (h : t.endsLine = false) (hsettled : Settled (t :: ts)) :
    endLine (t :: ts) = .error (unexpected .endOfLine (t :: ts)) (t :: ts) := by
  simp only [endLine, dropComments_of_settled hsettled]
  split
  · exact absurd ‹_› (kind_ne_newline h)
  · exact absurd ‹_› (kind_ne_eof h)
  · rfl

theorem endLine_dropComments (ts : List Token) :
    endLine ts = endLine (ts.dropWhile Token.isComment) := by
  have hdrop := dropComments_of_settled (settled_dropComments ts)
  unfold endLine
  rw [hdrop]

theorem isComment_of_endsLine {t : Token} (h : t.endsLine = true) : t.isComment = false :=
  beq_eq_false_iff_ne.2 (kind_ne_comment_of_endsLine h)

/-- The end of the file is no blank. -/
theorem dropBlank_of_eof (h : kindOf ts = .eof) : ts.dropWhile Token.isBlank = ts := by
  cases ts with
  | nil => rfl
  | cons t ts =>
    have hkind : t.kind = .eof := h
    exact dropBlank_content (isComment_of_endsLine (endsLine_of_eof hkind))
      (by rw [hkind]; decide) ts

theorem between_of_eof {t : Token} (h : t.kind = .eof) : Between lost (t :: ts) (t :: us) := by
  have hts : kindOf (t :: ts) = .eof := h
  have hus : kindOf (t :: us) = .eof := h
  rw [Between, dropBlank_of_eof hts, dropBlank_of_eof hus]
  exact Or.inr (.eof h)

theorem Alike.agrees_endLine (h : Alike lost ts us) :
    Agrees lost (Between lost) (endLine ts) (endLine us) := by
  have hsettled := h.settled
  cases h with
  | word inner content line rest =>
    rw [endLine_of_inner inner hsettled.1, endLine_of_inner inner hsettled.2]
    exact .error _
  | newline kind rest =>
    rw [endLine_of_newline kind, endLine_of_newline kind]
    exact .ok () (Or.inr rest)
  | passed kind rest =>
    rw [endLine_of_newline kind, endLine_of_newline kind]
    exact .ok () (Or.inl rest)
  | @eof t ts us kind =>
    have hts : kindOf (t :: ts) = .eof := kind
    have hus : kindOf (t :: us) = .eof := kind
    rw [endLine_of_eof hts, endLine_of_eof hus]
    exact .ok () (between_of_eof kind)
  | ended kind here newline line =>
    cases us with
    | nil => cases newline
    | cons u us =>
      rw [endLine_of_eof kind, endLine_of_newline newline]
      exact .ok () (Or.inl ((dropBlank_of_eof kind).symm ▸ here))

theorem Within.agrees_endLine (h : Within lost ts us) :
    Agrees lost (Between lost) (endLine ts) (endLine us) := by
  rw [endLine_dropComments ts, endLine_dropComments us]
  exact h.alike.agrees_endLine

/-- A parser of a line, which ends it and returns what it has read. -/
theorem Within.agrees_last (h : Within lost ts us) (x : β) :
    Agrees lost (Between lost) ((endLine >>= fun _ => pure x) ts)
      ((endLine >>= fun _ => pure x) us) :=
  h.agrees_endLine.bind fun _ _ _ hleft => .ok x hleft

theorem Within.agrees_dimension (h : Within lost ts us) (what : Expected) :
    Agrees lost (Within lost) (dimension what ts) (dimension what us) := by
  refine (h.agrees_number what).bind fun v left left' hleft => ?_
  cases toDimension what v with
  | ok n => exact .ok n hleft
  | error e => exact .error e

theorem Alike.agrees_header (h : Alike lost ts us) :
    Agrees lost (Between lost) (header ts) (header us) := by
  refine (h.within.agrees_dimension .constraintCount).bind fun n left left' hleft => ?_
  refine (hleft.agrees_dimension .variableCount).bind fun m left left' hleft => ?_
  exact Agrees.unless (.error (.invalidDimensions .noVariables)) hleft fun left left' hleft =>
    hleft.agrees_last (n, m)

theorem Alike.agrees_senseAndObjective (h : Alike lost ts us) (m : Nat) :
    Agrees lost (Between lost) (senseAndObjective m ts) (senseAndObjective m us) := by
  refine h.agrees_sense.bind fun s left left' hleft => ?_
  refine (hleft.agrees_objective m).bind fun cs left left' hleft => ?_
  exact hleft.within.agrees_last (s, cs)

theorem Alike.agrees_row (h : Alike lost ts us) (m : Nat) :
    Agrees lost (Between lost) (row m ts) (row m us) := by
  rw [row_apply, row_apply, h.line]
  refine h.agrees_numbers.bind fun vs left left' hleft => ?_
  refine hleft.agrees_comparison? vs fun x left left' hleft => ?_
  refine (agrees_checkLength hleft m (lineOf us) x.1.length).bind fun _ left left' hleft => ?_
  exact hleft.agrees_last _

theorem Alike.agrees_objectiveLine (h : Alike lost ts us) :
    Agrees lost (Between lost) (objectiveLine ts) (objectiveLine us) :=
  (h.within.agrees_number .objectiveValue).bind fun v _ _ hleft => hleft.agrees_last v

theorem Alike.agrees_valuesLine (h : Alike lost ts us) :
    Agrees lost (Between lost) (valuesLine ts) (valuesLine us) := by
  refine h.agrees_numbers.bind fun vs left left' hleft => ?_
  exact Agrees.unless (hleft.agrees_refuse .solutionVector) hleft fun left left' hleft =>
    hleft.within.agrees_last vs

/-! ## Parsers of files -/

/-- The runs agree, or the first one has come to where the tokens are lost. -/
def AgreesUntil (lost : List Token → Prop) (r r' : Result β) : Prop :=
  Agrees lost (Between lost) r r' ∨ ∃ x left, r = .ok x left ∧ lost left

/-- A parser of lines, whose runs on alike tokens agree. -/
structure Tracks (lost : List Token → Prop) (p : Parse β) : Prop where
  front : TakesFront true p
  agrees : ∀ ts us, Between lost ts us → AgreesUntil lost (p ts) (p us)

theorem tracks_pure (x : β) : Tracks lost (pure x : Parse β) where
  front := takesFront_pure x
  agrees _ _ hbetween := Or.inl (.ok x hbetween)

theorem Alike.agrees_atEnd (h : Alike lost ts us) : AgreesUntil lost (atEnd ts) (atEnd us) := by
  by_cases heof : kindOf ts = .eof
  · rw [atEnd_of_eof heof]
    obtain ⟨t, ts', us', rfl, rfl, hinner, _⟩ | ⟨t, ts', us', rfl, rfl, _⟩ | ⟨_, here, _⟩ :=
      h.word_or_end
    · exact absurd heof (kind_ne_eof hinner)
    · have hus : kindOf (t :: us') = .eof := heof
      rw [atEnd_of_eof hus]
      exact Or.inl (.ok () (between_of_eof heof))
    · exact Or.inr ⟨(), ts, rfl, here⟩
  · have hus : kindOf us ≠ .eof := by
      obtain ⟨t, ts', us', rfl, rfl, _⟩ | ⟨t, ts', us', rfl, rfl, _⟩ | ⟨hts, _⟩ := h.word_or_end
      · exact heof
      · exact heof
      · exact absurd hts heof
    rw [atEnd_of_ne heof, atEnd_of_ne hus]
    exact Or.inl (h.agrees_refuse .endOfFile)

section Tracks

variable (hsuffix : ∀ ts us, us <:+ ts → lost ts → lost us)

include hsuffix

/-- A run on tokens that are lost says nothing of the others. -/
theorem agreesUntil_of_lost {p : Parse β} (hp : TakesFront true p) (h : lost ts) (r : Result β) :
    AgreesUntil lost (p ts) r := by
  have htaken := hp ts
  generalize p ts = r' at htaken
  cases r' with
  | ok x left => exact Or.inr ⟨x, left, rfl, hsuffix ts left htaken h⟩
  | error e left => exact Or.inl (.unseen h htaken)

theorem tracks_line {p : Parse β} (hp : TakesFront true p)
    (h : ∀ ts us, Alike lost ts us → AgreesUntil lost (p ts) (p us)) :
    Tracks lost (skipBlankLines >>= fun _ => p) where
  front := takesFront_skipBlankLines.bind fun _ => hp
  agrees ts us hbetween := by
    show AgreesUntil lost (p (ts.dropWhile Token.isBlank)) (p (us.dropWhile Token.isBlank))
    obtain hlost | halike := hbetween
    · exact agreesUntil_of_lost hsuffix hp hlost _
    · exact h _ _ halike

theorem Tracks.bind {p : Parse β} {f : β → Parse γ} (hp : Tracks lost p)
    (hf : ∀ x, Tracks lost (f x)) : Tracks lost (p >>= f) where
  front := hp.front.bind fun x => (hf x).front
  agrees ts us hbetween := by
    obtain hagrees | ⟨x, left, hok, hlost⟩ := hp.agrees ts us hbetween
    · show AgreesUntil lost (EStateM.bind p f ts) (EStateM.bind p f us)
      unfold EStateM.bind
      generalize p ts = r at hagrees
      generalize p us = r' at hagrees
      cases hagrees with
      | ok x rest => exact (hf x).agrees _ _ rest
      | error e => exact Or.inl (.error e)
      | unseen here points => exact Or.inl (.unseen here points)
    · rw [bind_of_ok hok]
      exact agreesUntil_of_lost hsuffix (hf x).front hlost _

theorem tracks_header : Tracks lost (skipBlankLines >>= fun _ => header) :=
  tracks_line hsuffix takesFront_header fun _ _ h => Or.inl h.agrees_header

theorem tracks_senseAndObjective (m : Nat) :
    Tracks lost (skipBlankLines >>= fun _ => senseAndObjective m) :=
  tracks_line hsuffix (takesFront_senseAndObjective m) fun _ _ h =>
    Or.inl (h.agrees_senseAndObjective m)

theorem tracks_rows (m n : Nat) : Tracks lost (rows m n) := by
  induction n with
  | zero => exact tracks_pure []
  | succ n ih =>
    have hrow : Tracks lost (skipBlankLines >>= fun _ => row m) :=
      tracks_line hsuffix (takesFront_row m) fun _ _ h => Or.inl (h.agrees_row m)
    rw [rows_succ]
    exact hrow.bind hsuffix fun first => ih.bind hsuffix fun others => tracks_pure (first :: others)

theorem tracks_endOfFile : Tracks lost endOfFile :=
  tracks_line hsuffix (p := atEnd) takesFront_atEnd fun _ _ h => h.agrees_atEnd

theorem tracks_input : Tracks lost input := by
  rw [input_eq]
  exact (tracks_header hsuffix).bind hsuffix fun x =>
    (tracks_senseAndObjective hsuffix x.2).bind hsuffix fun y =>
    (tracks_rows hsuffix x.2 x.1).bind hsuffix fun xs =>
    (tracks_endOfFile hsuffix).bind hsuffix fun _ => tracks_pure _

theorem tracks_reference : Tracks lost reference := by
  rw [reference_eq]
  exact (tracks_line hsuffix takesFront_objectiveLine fun _ _ h =>
      Or.inl h.agrees_objectiveLine).bind hsuffix fun v =>
    (tracks_line hsuffix takesFront_valuesLine fun _ _ h => Or.inl h.agrees_valuesLine).bind
      hsuffix fun vs => (tracks_endOfFile hsuffix).bind hsuffix fun _ => tracks_pure _

end Tracks

end Parse

end PenaltySimplex.Format
