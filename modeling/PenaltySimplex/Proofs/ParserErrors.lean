import PenaltySimplex.Proofs.LineParsing
import PenaltySimplex.Proofs.ReferenceGrammar

/-!
# PenaltySimplex.Proofs.ParserErrors

Which tokens a parser takes, and which it blames. `TakesFront lengths p` says that `p` takes tokens
off the front of a list only, and that what its errors say of a place is read off one of the tokens
that it was given (`PointsAt`). Sequences of such parsers are such parsers (`TakesFront.bind`), and
so are the parsers of lines and of whole reference files. Only the parsers of an objective and of a
row refuse lengths.
-/

namespace PenaltySimplex.Format

namespace Parse

/-! ## Errors of a list of tokens -/

/-- What an unexpected token is called. -/
def foundIn (t : Token) : Found := if t.kind = .newline then .endOfLine else .text t.text

/-- What an error says of a place is read off one of the tokens. The flag says whether lines may be
refused by their lengths. -/
def PointsAt (lengths : Bool) (ts : List Token) : ParseError → Prop
  | .unexpectedToken _ found line span =>
    ∃ t ∈ ts, t.kind ≠ .eof ∧ found = foundIn t ∧ line = t.line ∧ span = t.span
  | .invalidNumber text line =>
    ∃ t ∈ ts, t.kind = .number ∧ t.value? = none ∧ text = t.text ∧ line = t.line
  | .rowLength line expected found =>
    lengths = true ∧ found ≠ expected ∧ ∃ t ∈ ts, t.kind ≠ .eof ∧ line = t.line
  | .unexpectedEnd _ | .invalidDimensions _ => True

variable {lengths : Bool}

theorem PointsAt.mono {ts us : List Token} {e : ParseError} (h : PointsAt lengths ts e)
    (hsub : ts ⊆ us) : PointsAt lengths us e := by
  cases e with
  | unexpectedToken expected found line span =>
    obtain ⟨t, ht, hkind, hplace⟩ := h
    exact ⟨t, hsub ht, hkind, hplace⟩
  | invalidNumber text line =>
    obtain ⟨t, ht, hkind, hplace⟩ := h
    exact ⟨t, hsub ht, hkind, hplace⟩
  | rowLength line expected found =>
    obtain ⟨hlengths, hne, t, ht, hkind, hline⟩ := h
    exact ⟨hlengths, hne, t, hsub ht, hkind, hline⟩
  | unexpectedEnd expected => trivial
  | invalidDimensions cause => trivial

theorem PointsAt.exists_line {ts : List Token} {e : ParseError} (h : PointsAt lengths ts e)
    {k : Nat} (hk : e.line? = some k) : ∃ t ∈ ts, t.kind ≠ .eof ∧ t.line = k := by
  cases e with
  | unexpectedToken expected found line span =>
    obtain ⟨t, ht, hkind, _, rfl, _⟩ := h
    exact ⟨t, ht, hkind, Option.some.inj hk⟩
  | invalidNumber text line =>
    obtain ⟨t, ht, hkind, _, _, rfl⟩ := h
    exact ⟨t, ht, by rw [hkind]; decide, Option.some.inj hk⟩
  | rowLength line expected found =>
    obtain ⟨_, _, t, ht, hkind, rfl⟩ := h
    exact ⟨t, ht, hkind, Option.some.inj hk⟩
  | unexpectedEnd expected => cases hk
  | invalidDimensions cause => cases hk

theorem pointsAt_unexpected (expected : Expected) (ts : List Token) :
    PointsAt lengths ts (unexpected expected ts) := by
  cases ts with
  | nil => trivial
  | cons t ts =>
    rw [unexpected]
    split
    · trivial
    · rename_i hkind
      exact ⟨t, List.mem_cons_self, by rw [hkind]; decide, by rw [foundIn, if_pos hkind], rfl, rfl⟩
    · rename_i heof hnewline
      exact ⟨t, List.mem_cons_self, heof, by rw [foundIn, if_neg hnewline], rfl, rfl⟩

/-! ## Parsers that take tokens off the front -/

/-- What is left is an end of the tokens, and an error is theirs. -/
def TakenFrom {β : Type} (lengths : Bool) (ts : List Token) :
    EStateM.Result ParseError (List Token) β → Prop
  | .ok _ left => left <:+ ts
  | .error e _ => PointsAt lengths ts e

def TakesFront {β : Type} (lengths : Bool) (p : Parse β) : Prop :=
  ∀ ts, TakenFrom lengths ts (p ts)

section Combinators

variable {β γ : Type} {ts left : List Token} {e : ParseError}

theorem TakesFront.suffix {p : Parse β} (hp : TakesFront lengths p) {x : β}
    (hok : p ts = .ok x left) : left <:+ ts := by
  have htaken := hp ts
  rwa [hok] at htaken

theorem TakesFront.points {p : Parse β} (hp : TakesFront lengths p)
    (herror : p ts = .error e left) : PointsAt lengths ts e := by
  have htaken := hp ts
  rwa [herror] at htaken

theorem TakenFrom.mono {us : List Token} {r : EStateM.Result ParseError (List Token) β}
    (h : TakenFrom lengths us r) (hsuffix : us <:+ ts) : TakenFrom lengths ts r := by
  cases r with
  | ok x left => exact List.IsSuffix.trans h hsuffix
  | error e left => exact PointsAt.mono h hsuffix.subset

/-- A sequence that starts at an end of the tokens. -/
theorem TakenFrom.bind {us : List Token} {p : Parse β} {f : β → Parse γ}
    (hp : TakenFrom lengths ts (p us))
    (hf : ∀ x left, left <:+ ts → TakenFrom lengths ts (f x left)) :
    TakenFrom lengths ts ((p >>= f) us) := by
  show TakenFrom lengths ts (EStateM.bind p f us)
  unfold EStateM.bind
  cases hx : p us with
  | ok x left =>
    rw [hx] at hp
    exact hf x left hp
  | error e left =>
    rw [hx] at hp
    exact hp

theorem TakesFront.bind {p : Parse β} {f : β → Parse γ} (hp : TakesFront lengths p)
    (hf : ∀ x, TakesFront lengths (f x)) : TakesFront lengths (p >>= f) := by
  intro ts
  exact (hp ts).bind fun x left hleft => (hf x left).mono hleft

theorem takesFront_pure (x : β) : TakesFront lengths (pure x) := fun _ => List.suffix_rfl

theorem takesFront_throw (cause : DimensionError) :
    TakesFront lengths (throw (.invalidDimensions cause) : Parse β) := fun _ => trivial

theorem takesFront_refuse (expected : Expected) : TakesFront lengths (refuse expected : Parse β) :=
  pointsAt_unexpected expected

/-- What comes after a refusal under a condition. -/
theorem TakenFrom.unless {c : Prop} [Decidable c] {us : List Token} {p : Parse Unit}
    {f : Unit → Parse β} (hp : TakenFrom lengths ts (p us)) (hus : us <:+ ts)
    (hf : ∀ left, left <:+ ts → TakenFrom lengths ts (f () left)) :
    TakenFrom lengths ts ((if c then p >>= f else f ()) us) := by
  split
  · exact hp.bind fun _ => hf
  · exact hf us hus

theorem TakesFront.unless {c : Prop} [Decidable c] {p : Parse Unit} {f : Unit → Parse β}
    (hp : TakesFront lengths p) (hf : TakesFront lengths (f ())) :
    TakesFront lengths (if c then p >>= f else f ()) :=
  fun ts => (hp ts).unless List.suffix_rfl fun left hleft => (hf left).mono hleft

end Combinators

/-! ## The parsers -/

theorem takesFront_skipBlankLines : TakesFront lengths skipBlankLines :=
  fun _ => List.dropWhile_suffix _

theorem takesFront_endLine : TakesFront lengths endLine := by
  intro ts
  have hdrop := List.dropWhile_suffix (l := ts) Token.isComment
  unfold endLine
  split
  · exact List.nil_suffix
  · rename_i t rest h
    rw [h] at hdrop
    split
    · exact (List.suffix_cons t rest).trans hdrop
    · exact hdrop
    · exact (pointsAt_unexpected _ _).mono hdrop.subset

theorem takesFront_number (expected : Expected) : TakesFront lengths (number expected) := by
  intro ts
  have hdrop := List.dropWhile_suffix (l := ts) Token.isComment
  unfold number
  split
  · trivial
  · rename_i t rest h
    rw [h] at hdrop
    split
    · rename_i hkind
      split
      · exact (List.suffix_cons t rest).trans hdrop
      · rename_i hvalue
        exact ⟨t, hdrop.subset List.mem_cons_self, hkind, hvalue, rfl, rfl⟩
    · exact (pointsAt_unexpected _ _).mono hdrop.subset

theorem takesFront_numbers : TakesFront lengths numbers := by
  intro ts
  fun_induction numbers ts with
  | case1 => exact List.suffix_rfl
  | case2 t rest hkind ih => exact ih.mono (List.suffix_cons t rest)
  | case3 t rest hkind hvalue => exact ⟨t, List.mem_cons_self, hkind, hvalue, rfl, rfl⟩
  | case4 t rest hkind v hvalue vs left hrest ih =>
    rw [hrest] at ih
    exact List.IsSuffix.trans ih (List.suffix_cons t rest)
  | case5 t rest hkind v hvalue e left hrest ih =>
    rw [hrest] at ih
    exact PointsAt.mono ih (List.subset_cons_self t rest)
  | case6 t rest hcomment hnumber => exact List.suffix_rfl

theorem takesFront_dimension (what : Expected) : TakesFront lengths (dimension what) := by
  refine (takesFront_number what).bind fun v => ?_
  unfold toDimension
  split
  · rename_i n h
    exact takesFront_pure n
  · rename_i e h
    split at h
    · cases h
      exact takesFront_throw _
    · split at h
      · cases h
      · cases h
        exact takesFront_throw _

theorem takesFront_sense : TakesFront lengths sense := by
  intro ts
  unfold sense
  split
  · exact List.suffix_rfl
  · rename_i t rest
    split
    · exact List.suffix_cons t rest
    · exact List.suffix_cons t rest
    · exact List.suffix_rfl

theorem takesFront_comparison? : TakesFront lengths comparison? := by
  intro ts
  unfold comparison?
  split
  · exact List.suffix_rfl
  · rename_i t rest
    split
    · exact List.suffix_cons t rest
    · exact List.suffix_rfl

theorem takesFront_rightHandSide (vs : List Float) (o : Option Comparison) :
    TakesFront lengths (rightHandSide vs o) := by
  cases o with
  | some c => exact (takesFront_number .rightHandSide).bind fun b => takesFront_pure _
  | none =>
    rw [rightHandSide]
    split
    · exact takesFront_pure _
    · exact takesFront_refuse _

/-! ## Lines and files -/

/-- The coefficients of an objective that is said to start on a line. -/
def objectiveOn (m line : Nat) : Parse (List Float) := do
  let values ← numbers
  if values.isEmpty then refuse .objective
  checkLength m line values.length
  return values

theorem objective_apply (m : Nat) (ts : List Token) :
    objective m ts = objectiveOn m (lineOf ts) ts := rfl

/-- A row that is said to start on a line. -/
def rowOn (m line : Nat) : Parse InputRow := do
  let values ← numbers
  let (coefficients, comparison, rhs) ← rightHandSide values (← comparison?)
  checkLength m line coefficients.length
  endLine
  return { coefficients, comparison, rhs, line }

theorem row_apply (m : Nat) (ts : List Token) : row m ts = rowOn m (lineOf ts) ts := rfl

theorem numbers_of_ne_number {ts : List Token} (hsettled : Settled ts) (h : kindOf ts ≠ .number) :
    numbers ts = .ok [] ts := by
  cases ts with
  | nil => rfl
  | cons t ts =>
    have hcomment : t.kind ≠ .comment := hsettled
    have hnumber : t.kind ≠ .number := h
    unfold numbers
    split
    · contradiction
    · contradiction
    · rfl

theorem bind_of_ok {β γ : Type} {p : Parse β} {x : β} {ts left : List Token}
    (h : p ts = .ok x left) (f : β → Parse γ) : (p >>= f) ts = f x left := by
  show EStateM.bind p f ts = _
  rw [EStateM.bind, h]

theorem unexpected_of_eof {ts : List Token} (h : kindOf ts = .eof) (expected : Expected) :
    unexpected expected ts = .unexpectedEnd expected := by
  cases ts with
  | nil => rfl
  | cons t ts =>
    have hkind : t.kind = .eof := h
    rw [unexpected, hkind]

/-- At the end of the tokens there are no numbers and no comparison, and so no length to refuse. -/
theorem numbers_of_eof {ts : List Token} (h : kindOf ts = .eof) : numbers ts = .ok [] ts :=
  numbers_of_ne_number (by rw [Settled, h]; decide) (by rw [h]; decide)

theorem objectiveOn_of_eof {ts : List Token} (h : kindOf ts = .eof) (m line : Nat) :
    objectiveOn m line ts = .error (.unexpectedEnd .objective) ts := by
  rw [objectiveOn, bind_of_ok (numbers_of_eof h), ← unexpected_of_eof h]
  rfl

theorem rowOn_of_eof {ts : List Token} (h : kindOf ts = .eof) (m line : Nat) :
    rowOn m line ts = .error (.unexpectedEnd .constraintRow) ts := by
  have hcomparison : comparison? ts = .ok none ts := comparison?_of_none (by rw [h]; rfl)
  rw [rowOn, bind_of_ok (numbers_of_eof h), bind_of_ok hcomparison, ← unexpected_of_eof h]
  rfl

/-- A length is refused on the line of the first token. -/
theorem takenFrom_checkLength {ts left : List Token} (h : kindOf ts ≠ .eof) (hleft : left <:+ ts)
    (m found : Nat) : TakenFrom true ts (checkLength m (lineOf ts) found left) := by
  cases ts with
  | nil => exact absurd rfl h
  | cons t ts =>
    rw [checkLength]
    split
    · exact hleft
    · rename_i hne
      exact ⟨rfl, hne, t, List.mem_cons_self, h, rfl⟩

theorem takesFront_objective (m : Nat) : TakesFront true (objective m) := by
  intro ts
  rw [objective_apply]
  by_cases heof : kindOf ts = .eof
  · rw [objectiveOn_of_eof heof]
    trivial
  · refine (takesFront_numbers ts).bind fun vs left hleft => ?_
    refine TakenFrom.unless ((takesFront_refuse .objective left).mono hleft) hleft
      fun left hleft => ?_
    exact (takenFrom_checkLength heof hleft m vs.length).bind fun _ left hleft => hleft

theorem takesFront_row (m : Nat) : TakesFront true (row m) := by
  intro ts
  rw [row_apply]
  by_cases heof : kindOf ts = .eof
  · rw [rowOn_of_eof heof]
    trivial
  · refine (takesFront_numbers ts).bind fun vs left hleft => ?_
    refine ((takesFront_comparison? left).mono hleft).bind fun o left hleft => ?_
    refine ((takesFront_rightHandSide vs o left).mono hleft).bind fun x left hleft => ?_
    refine (takenFrom_checkLength heof hleft m x.1.length).bind fun _ left hleft => ?_
    refine ((takesFront_endLine left).mono hleft).bind fun _ left hleft => hleft

theorem takesFront_header : TakesFront lengths header :=
  (takesFront_dimension .constraintCount).bind fun n =>
    (takesFront_dimension .variableCount).bind fun m =>
    (takesFront_throw .noVariables).unless
      (takesFront_endLine.bind fun _ => takesFront_pure (n, m))

theorem takesFront_senseAndObjective (m : Nat) : TakesFront true (senseAndObjective m) :=
  takesFront_sense.bind fun s => (takesFront_objective m).bind fun cs =>
    takesFront_endLine.bind fun _ => takesFront_pure (s, cs)

/-- What is left of the end of a file after blank lines. -/
def atEnd : Parse Unit := do
  if kindOf (← get) ≠ .eof then refuse .endOfFile

theorem atEnd_of_eof {ts : List Token} (h : kindOf ts = .eof) : atEnd ts = .ok () ts := by
  show (if kindOf ts ≠ .eof then refuse .endOfFile else pure ()) ts = _
  rw [if_neg (not_not.2 h)]
  rfl

theorem atEnd_of_ne {ts : List Token} (h : kindOf ts ≠ .eof) :
    atEnd ts = refuse .endOfFile ts := by
  show (if kindOf ts ≠ .eof then refuse .endOfFile else pure ()) ts = _
  rw [if_pos h]

theorem takesFront_atEnd : TakesFront lengths atEnd := by
  intro ts
  by_cases h : kindOf ts = .eof
  · rw [atEnd_of_eof h]
    exact List.suffix_rfl
  · rw [atEnd_of_ne h]
    exact takesFront_refuse .endOfFile ts

theorem takesFront_objectiveLine : TakesFront lengths objectiveLine :=
  (takesFront_number .objectiveValue).bind fun v =>
    takesFront_endLine.bind fun _ => takesFront_pure v

theorem takesFront_valuesLine : TakesFront lengths valuesLine :=
  takesFront_numbers.bind fun vs => (takesFront_refuse .solutionVector).unless
    (takesFront_endLine.bind fun _ => takesFront_pure vs)

theorem takesFront_endOfFile : TakesFront lengths endOfFile :=
  takesFront_skipBlankLines.bind fun _ => takesFront_atEnd

theorem takesFront_reference : TakesFront lengths reference := by
  rw [reference_eq]
  exact (takesFront_skipBlankLines.bind fun _ => takesFront_objectiveLine).bind fun v =>
    (takesFront_skipBlankLines.bind fun _ => takesFront_valuesLine).bind fun vs =>
    takesFront_endOfFile.bind fun _ => takesFront_pure _

/-! ## Lines of errors -/

/-- No error is on a line before the first. -/
theorem line_pos {β : Type} {p : Parse β} (hp : TakesFront lengths p) {source : String}
    {e : ParseError} {l : Nat} (herror : ofResult (p (tokenize source)) = .error e)
    (hline : e.line? = some l) : 0 < l := by
  obtain ⟨left, hresult⟩ := ofResult_eq_error_iff.1 herror
  obtain ⟨t, ht, _, rfl⟩ := (hp.points hresult).exists_line hline
  exact (division_tokenize source).le_line t ht

end Parse

end PenaltySimplex.Format
