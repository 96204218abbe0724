import PenaltySimplex.Proofs.AlikeTokens

/-!
# PenaltySimplex.Proofs.TokenPositions

The parsers over a position in a list of tokens. The list stays as it is, taking a token moves the
position on whether there is a token or not, and past the end every token counts as the end of the
file.

* `Positioned`: parsers of this kind, step by step. `Positioned.row` and `Positioned.reference` are
  the larger ones.
* `Matches`: a run ends as the parser of `Parse` does on the tokens from the position on, and at a
  position that is neither before the start nor past the end.
* `Follows`: all runs of a parser match. Sequences of such parsers are such parsers
  (`Follows.bind`), so no parser takes a token where there is none.
-/

namespace PenaltySimplex.Format

namespace Parse

theorem length_lt_of_number {expected : Expected} {ts left : List Token} {v : Float}
    (h : number expected ts = .ok v left) : left.length < ts.length := by
  have hle := (List.dropWhile_suffix (l := ts) Token.isComment).length_le
  have hsettled := settled_dropComments ts
  rw [number_dropComments] at h
  generalize ts.dropWhile Token.isComment = us at h hle hsettled
  by_cases hkind : kindOf us = .number
  · cases us with
    | nil => cases hkind
    | cons t us =>
      rw [number_of_number hkind] at h
      cases hvalue : t.value? with
      | none =>
        rw [hvalue] at h
        cases h
      | some w =>
        rw [hvalue] at h
        cases h
        exact hle
  · rw [number_of_ne hsettled hkind] at h
    cases h

theorem numbers_of_number {t : Token} (h : t.kind = .number) (ts : List Token) :
    numbers (t :: ts) =
      (number .number >>= fun v => numbers >>= fun vs => pure (v :: vs)) (t :: ts) := by
  have hnumber := number_of_number h .number ts
  cases hvalue : t.value? with
  | none =>
    rw [hvalue] at hnumber
    rw [numbers_of_invalid h hvalue]
    show _ = EStateM.bind (number .number) _ (t :: ts)
    rw [EStateM.bind, hnumber]
  | some v =>
    rw [hvalue] at hnumber
    rw [numbers_of_valid h hvalue, bind_of_ok hnumber]

end Parse

/-- Where a run stops, with a value or with an error. -/
def stateOf {β σ : Type} : EStateM.Result ParseError σ β → σ
  | .ok _ s => s
  | .error _ s => s

/-- Parsers that move a position over the tokens. -/
abbrev Positioned := EStateM ParseError Nat

namespace Positioned

section Steps

variable (tokens : List Token)

def kindAt (k : Nat) : TokenKind := tokens[k]?.elim .eof Token.kind

/-- The token at the position, if there is one. The position moves on in any case. -/
def advance : Positioned (Option Token) := fun k => .ok tokens[k]? (k + 1)

def peekKind : Positioned TokenKind := fun k => .ok (kindAt tokens k) k

def line : Positioned Nat := fun k => .ok (tokens[k]?.elim 0 Token.line) k

def refuse {β : Type} (expected : Expected) : Positioned β := fun k =>
  .error (Parse.unexpected expected tokens[k]?.toList) k

theorem lt_of_kindAt {k : Nat} (h : kindAt tokens k ≠ .eof) : k < tokens.length := by
  by_contra hge
  rw [kindAt, List.getElem?_eq_none (Nat.not_lt.1 hge)] at h
  exact h rfl

/-- Moves on while the tokens are of some kinds, the end of the file not among them. -/
def pass (kinds : TokenKind → Bool) (heof : kinds .eof = false) (k : Nat) : Nat :=
  if h : kinds (kindAt tokens k) then pass kinds heof (k + 1) else k
termination_by tokens.length - k
decreasing_by
  have hlt : k < tokens.length := lt_of_kindAt tokens (by rintro hkind; simp [hkind, heof] at h)
  omega

/-- The first position from `k` on that is not at a comment. -/
def pastComments (k : Nat) : Nat := pass tokens (· == .comment) rfl k

def skipComments : Positioned Unit := modify (pastComments tokens)

def skipBlankLines : Positioned Unit :=
  modify (pass tokens (fun kind => kind == .newline || kind == .comment) rfl)

def endLine : Positioned Unit := do
  skipComments tokens
  let kind ← peekKind tokens
  if kind = .newline then discard (advance tokens)
  else if kind ≠ .eof then refuse tokens .endOfLine

def number (expected : Expected) : Positioned Float := do
  skipComments tokens
  if (← peekKind tokens) ≠ .number then refuse tokens expected
  match ← advance tokens with
  | none => throw (.unexpectedEnd expected)
  | some t =>
    match t.value? with
    | some v => return v
    | none => throw (.invalidNumber t.text t.line)

end Steps

/-! ## Runs -/

/-- The same value or the same error, and a position that stands for the tokens left. -/
inductive Matches {β : Type} (tokens : List Token) (k : Nat) :
    EStateM.Result ParseError Nat β → EStateM.Result ParseError (List Token) β → Prop where
  | ok (x : β) {k' : Nat} (le : k ≤ k') (le_length : k' ≤ tokens.length) :
      Matches tokens k (.ok x k') (.ok x (tokens.drop k'))
  | error (e : ParseError) {k' : Nat} (le : k ≤ k') (le_length : k' ≤ tokens.length) :
      Matches tokens k (.error e k') (.error e (tokens.drop k'))

/-- From every position in the tokens a run matches the one on the tokens from there on. -/
def Follows {β : Type} (tokens : List Token) (q : Positioned β) (p : Parse β) : Prop :=
  ∀ k ≤ tokens.length, Matches tokens k (q k) (p (tokens.drop k))

section Combinators

variable {β γ : Type} {tokens : List Token} {k : Nat}

theorem Matches.mono {k' : Nat} {r : EStateM.Result ParseError Nat β}
    {r' : EStateM.Result ParseError (List Token) β} (h : Matches tokens k' r r') (hle : k ≤ k') :
    Matches tokens k r r' := by
  cases h with
  | ok x le le_length => exact .ok x (hle.trans le) le_length
  | error e le le_length => exact .error e (hle.trans le) le_length

theorem Matches.stateOf_le {r : EStateM.Result ParseError Nat β}
    {r' : EStateM.Result ParseError (List Token) β} (h : Matches tokens k r r') :
    stateOf r ≤ tokens.length := by
  cases h with
  | ok x le le_length => exact le_length
  | error e le le_length => exact le_length

/-- A value that is read off the tokens by their position. -/
theorem Follows.eq_ok {q : Positioned β} {p : Parse β} (hq : Follows tokens q p) {k' : Nat} {x : β}
    (hk : k ≤ tokens.length) (h : q k = .ok x k') :
    p (tokens.drop k) = .ok x (tokens.drop k') ∧ k ≤ k' ∧ k' ≤ tokens.length := by
  have hmatches := hq k hk
  rw [h] at hmatches
  generalize p (tokens.drop k) = r at hmatches ⊢
  cases hmatches with
  | ok _ le le_length => exact ⟨rfl, le, le_length⟩

theorem Matches.bind {q : Positioned β} {p : Parse β} {g : β → Positioned γ} {f : β → Parse γ}
    (hq : Matches tokens k (q k) (p (tokens.drop k)))
    (hg : ∀ x k', q k = .ok x k' → k' ≤ tokens.length →
      Matches tokens k' (g x k') (f x (tokens.drop k'))) :
    Matches tokens k ((q >>= g) k) ((p >>= f) (tokens.drop k)) := by
  show Matches tokens k (EStateM.bind q g k) (EStateM.bind p f (tokens.drop k))
  unfold EStateM.bind
  generalize q k = r at hq hg ⊢
  generalize p (tokens.drop k) = r' at hq ⊢
  cases hq with
  | ok x le le_length => exact (hg x _ rfl le_length).mono le
  | error e le le_length => exact .error e le le_length

theorem Follows.bind {q : Positioned β} {p : Parse β} {g : β → Positioned γ} {f : β → Parse γ}
    (hq : Follows tokens q p) (hg : ∀ x, Follows tokens (g x) (f x)) :
    Follows tokens (q >>= g) (p >>= f) := by
  intro k hk
  exact (hq k hk).bind fun x k' _ hk' => hg x k' hk'

theorem Follows.unless {c : Prop} [Decidable c] {q : Positioned Unit} {p : Parse Unit}
    {g : Unit → Positioned β} {f : Unit → Parse β} (hq : Follows tokens q p)
    (hg : Follows tokens (g ()) (f ())) :
    Follows tokens (if c then q >>= g else g ()) (if c then p >>= f else f ()) := by
  split
  · exact hq.bind fun _ => hg
  · exact hg

theorem peekKind_bind (g : TokenKind → Positioned β) (k : Nat) :
    (peekKind tokens >>= g) k = g (kindAt tokens k) k := rfl

theorem advance_bind (g : Option Token → Positioned β) (k : Nat) :
    (advance tokens >>= g) k = g tokens[k]? (k + 1) := rfl

theorem follows_pure (x : β) : Follows tokens (pure x) (pure x) :=
  fun k hk => .ok x (Nat.le_refl k) hk

theorem follows_throw (e : ParseError) :
    Follows tokens (throw e : Positioned β) (throw e : Parse β) :=
  fun k hk => .error e (Nat.le_refl k) hk

/-- A position is past the tokens, or at one of them. -/
theorem drop_cases (tokens : List Token) (k : Nat) :
    (tokens[k]? = none ∧ tokens.drop k = []) ∨
      ∃ t, tokens[k]? = some t ∧ tokens.drop k = t :: tokens.drop (k + 1) ∧
        k + 1 ≤ tokens.length := by
  by_cases h : k < tokens.length
  · exact Or.inr ⟨tokens[k], List.getElem?_eq_getElem h, List.drop_eq_getElem_cons h, h⟩
  · have hle := Nat.not_lt.1 h
    exact Or.inl ⟨List.getElem?_eq_none hle, List.drop_eq_nil_of_le hle⟩

theorem follows_refuse (expected : Expected) :
    Follows tokens (refuse tokens expected : Positioned β) (Parse.refuse expected) := by
  intro k hk
  have hhead : Parse.unexpected expected tokens[k]?.toList =
      Parse.unexpected expected (tokens.drop k) := by
    rw [← List.head?_drop]
    cases tokens.drop k with
    | nil => rfl
    | cons t ts => rfl
  show Matches tokens k (.error _ k) (.error _ _)
  rw [hhead]
  exact .error _ (Nat.le_refl k) hk

theorem kindOf_drop (tokens : List Token) (k : Nat) :
    Parse.kindOf (tokens.drop k) = kindAt tokens k := by
  rw [kindAt, ← List.head?_drop]
  cases tokens.drop k with
  | nil => rfl
  | cons t ts => rfl

/-- There is a token where the kind is not that of the end. -/
theorem exists_token {k : Nat} (h : kindAt tokens k ≠ .eof) :
    ∃ t, tokens[k]? = some t ∧ t.kind = kindAt tokens k ∧
      tokens.drop k = t :: tokens.drop (k + 1) ∧ k + 1 ≤ tokens.length := by
  have hlt := lt_of_kindAt tokens h
  have hget := List.getElem?_eq_getElem hlt
  refine ⟨tokens[k], hget, ?_, List.drop_eq_getElem_cons hlt, hlt⟩
  rw [kindAt, hget]
  rfl

theorem follows_peekKind :
    Follows tokens (peekKind tokens) fun ts => .ok (Parse.kindOf ts) ts := by
  intro k hk
  show Matches tokens k (.ok _ k) (.ok _ _)
  rw [kindOf_drop]
  exact .ok _ (Nat.le_refl k) hk

theorem follows_line : Follows tokens (line tokens) fun ts => .ok (Parse.lineOf ts) ts := by
  intro k hk
  have hhead : tokens[k]?.elim 0 Token.line = Parse.lineOf (tokens.drop k) := by
    rw [← List.head?_drop]
    cases tokens.drop k with
    | nil => rfl
    | cons t ts => rfl
  show Matches tokens k (.ok _ k) (.ok _ _)
  rw [hhead]
  exact .ok _ (Nat.le_refl k) hk

end Combinators

/-! ## Moving on -/

section Pass

variable {tokens : List Token} {kinds : TokenKind → Bool} {heof : kinds .eof = false}

theorem le_pass (k : Nat) : k ≤ pass tokens kinds heof k := by
  fun_induction pass tokens kinds heof k with
  | case1 k h ih => exact (Nat.le_succ k).trans ih
  | case2 k h => exact Nat.le_refl k

theorem pass_le {k : Nat} (hk : k ≤ tokens.length) :
    pass tokens kinds heof k ≤ tokens.length := by
  fun_induction pass tokens kinds heof k with
  | case1 k h ih =>
    refine ih (lt_of_kindAt tokens ?_)
    intro hkind
    rw [hkind, heof] at h
    cases h
  | case2 k h => exact hk

theorem drop_pass {p : Token → Bool} (hp : ∀ t, p t = kinds t.kind) (k : Nat) :
    tokens.drop (pass tokens kinds heof k) = (tokens.drop k).dropWhile p := by
  fun_induction pass tokens kinds heof k with
  | case1 k h ih =>
    rw [ih]
    obtain ⟨hget, _⟩ | ⟨t, hget, hdrop, _⟩ := drop_cases tokens k
    · simp [kindAt, hget, heof] at h
    · have ht : p t = true := by simpa [hp, kindAt, hget] using h
      rw [hdrop, List.dropWhile_cons_of_pos ht]
  | case2 k h =>
    obtain ⟨_, hdrop⟩ | ⟨t, hget, hdrop, _⟩ := drop_cases tokens k
    · rw [hdrop, List.dropWhile_nil]
    · have ht : ¬p t = true := by simpa [hp, kindAt, hget] using h
      rw [hdrop, List.dropWhile_cons_of_neg ht]

theorem follows_pass {p : Token → Bool} (hp : ∀ t, p t = kinds t.kind) :
    Follows tokens (modify (pass tokens kinds heof)) fun ts => .ok () (ts.dropWhile p) := by
  intro k hk
  show Matches tokens k (.ok () (pass tokens kinds heof k)) (.ok () _)
  rw [← drop_pass hp k]
  exact .ok () (le_pass k) (pass_le hk)

theorem follows_skipBlankLines : Follows tokens (skipBlankLines tokens) Parse.skipBlankLines :=
  follows_pass fun _ => rfl

theorem drop_pastComments (tokens : List Token) (k : Nat) :
    tokens.drop (pastComments tokens k) = (tokens.drop k).dropWhile Token.isComment :=
  drop_pass (fun _ => rfl) k

theorem settled_pastComments (tokens : List Token) (k : Nat) :
    Parse.Settled (tokens.drop (pastComments tokens k)) := by
  rw [drop_pastComments]
  exact Parse.settled_dropComments _

/-- A parser that passes over comments first need only be followed where there are none. -/
theorem Follows.afterComments {β : Type} {q : Positioned β} {p : Parse β}
    (hp : ∀ ts, p ts = p (ts.dropWhile Token.isComment))
    (hq : ∀ k ≤ tokens.length, Parse.Settled (tokens.drop k) →
      Matches tokens k (q k) (p (tokens.drop k))) :
    Follows tokens (skipComments tokens >>= fun _ => q) p := by
  intro k hk
  rw [hp, ← drop_pastComments]
  exact (hq _ (pass_le hk) (settled_pastComments tokens k)).mono (le_pass k)

theorem follows_endLine : Follows tokens (endLine tokens) Parse.endLine := by
  refine Follows.afterComments Parse.endLine_dropComments ?_
  intro k hk hsettled
  rw [peekKind_bind]
  by_cases heof : kindAt tokens k = .eof
  · rw [heof, Parse.endLine_of_eof (by rw [kindOf_drop, heof])]
    exact .ok () (Nat.le_refl k) hk
  · obtain ⟨t, _, hkind, hdrop, hlt⟩ := exists_token heof
    by_cases hnewline : kindAt tokens k = .newline
    · rw [if_pos hnewline, hdrop, Parse.endLine_of_newline (hkind.trans hnewline)]
      exact .ok () (Nat.le_succ k) hlt
    · have hinner : t.endsLine = false :=
        endsLine_eq_false (by rwa [hkind]) (by rwa [hkind])
      rw [hdrop] at hsettled
      rw [if_neg hnewline, if_pos heof, hdrop, Parse.endLine_of_inner hinner hsettled, ← hdrop]
      exact follows_refuse .endOfLine k hk

theorem follows_number (expected : Expected) :
    Follows tokens (number tokens expected) (Parse.number expected) := by
  refine Follows.afterComments (Parse.number_dropComments expected) ?_
  intro k hk hsettled
  rw [peekKind_bind]
  by_cases hkind : kindAt tokens k = .number
  · have hinside : kindAt tokens k ≠ .eof := by
      rw [hkind]
      decide
    obtain ⟨t, hget, ht, hdrop, hlt⟩ := exists_token hinside
    rw [hdrop, Parse.number_of_number (ht.trans hkind), if_neg (not_not.2 hkind)]
    beta_reduce
    rw [advance_bind, hget]
    dsimp only
    cases t.value? with
    | some v => exact .ok v (Nat.le_succ k) hlt
    | none => exact .error _ (Nat.le_succ k) hlt
  · rw [Parse.number_of_ne hsettled (by rwa [kindOf_drop]), if_pos hkind]
    exact follows_refuse expected k hk

end Pass

/-! ## Numbers -/

section Numbers

variable (tokens : List Token)

theorem number_lt {expected : Expected} {k k' : Nat} {v : Float} (hk : k ≤ tokens.length)
    (h : number tokens expected k = .ok v k') : k < k' := by
  obtain ⟨hlist, _, hk'⟩ := (follows_number expected).eq_ok hk h
  have hlength := Parse.length_lt_of_number hlist
  rw [List.length_drop, List.length_drop] at hlength
  omega

/-- As many numbers as there are from a position on. -/
def numbersFrom (k : Nat) : EStateM.Result ParseError Nat (List Float) :=
  let first := pastComments tokens k
  if _ : kindAt tokens first = .number then
    match _ : number tokens .number first with
    | .ok v next =>
      match numbersFrom next with
      | .ok vs last => .ok (v :: vs) last
      | .error e last => .error e last
    | .error e next => .error e next
  else .ok [] first
termination_by tokens.length - k
decreasing_by
  rename_i hkind hnumber
  have hfirst : first < tokens.length := lt_of_kindAt tokens (by rw [hkind]; decide)
  have hnext := number_lt tokens (Nat.le_of_lt hfirst) hnumber
  have hle : k ≤ first := le_pass k
  omega

def numbers : Positioned (List Float) := numbersFrom tokens

theorem numbers_of_number {k : Nat} (hkind : kindAt tokens (pastComments tokens k) = .number) :
    numbers tokens k = (number tokens .number >>= fun v => numbers tokens >>= fun vs =>
      pure (v :: vs)) (pastComments tokens k) := by
  rw [numbers, numbersFrom, dif_pos hkind]
  show _ = EStateM.bind (number tokens .number) _ _
  unfold EStateM.bind
  split
  · rename_i v next hnumber
    rw [hnumber]
    show _ = EStateM.bind (numbersFrom tokens) (fun vs => pure (v :: vs)) next
    unfold EStateM.bind
    cases numbersFrom tokens next with
    | ok vs last => rfl
    | error e last => rfl
  · rename_i e next hnumber
    rw [hnumber]

theorem follows_numbers : Follows tokens (numbers tokens) Parse.numbers := by
  intro k hk
  -- the numbers after the first one are read from a later position
  induction hleft : tokens.length - k using Nat.strongRecOn generalizing k with
  | ind left ih =>
    have hlength : pastComments tokens k ≤ tokens.length := pass_le hk
    have hsettled := settled_pastComments tokens k
    rw [Parse.numbers_dropComments, ← drop_pastComments]
    by_cases hkind : kindAt tokens (pastComments tokens k) = .number
    · have hinside : kindAt tokens (pastComments tokens k) ≠ .eof := by
        rw [hkind]
        decide
      obtain ⟨t, _, ht, hdrop, _⟩ := exists_token hinside
      have hlist :=
        Parse.numbers_of_number (ht.trans hkind) (tokens.drop (pastComments tokens k + 1))
      rw [← hdrop] at hlist
      rw [numbers_of_number tokens hkind, hlist]
      refine Matches.mono (Matches.bind (follows_number .number _ hlength) ?_) (le_pass k)
      intro v next hnumber hnext
      have hlt := number_lt tokens hlength hnumber
      have hle : k ≤ pastComments tokens k := le_pass k
      refine Matches.bind (ih (tokens.length - next) (by omega) next hnext rfl) ?_
      exact fun vs last _ hlast => follows_pure (v :: vs) last hlast
    · have hstop : numbers tokens k = .ok [] (pastComments tokens k) := by
        rw [numbers, numbersFrom, dif_neg hkind]
      rw [hstop, Parse.numbers_of_ne_number hsettled (by rwa [kindOf_drop])]
      exact .ok [] (le_pass k) hlength

end Numbers

/-! ## Lines and files -/

section Files

variable (tokens : List Token)

def dimension (what : Expected) : Positioned Nat := do
  let value ← number tokens what
  match Parse.toDimension what value with
  | .ok n => return n
  | .error e => throw e

/-- Takes the next token if its kind stands for something. -/
def optional {β : Type} (meaning : TokenKind → Option β) (default : β) : Positioned β := do
  match meaning (← peekKind tokens) with
  | some x =>
    discard (advance tokens)
    return x
  | none => return default

def sense : Positioned Sense := optional tokens Parse.senseOf .minimize

def comparison? : Positioned (Option Comparison) :=
  optional tokens (fun kind => (Parse.comparisonOf kind).map some) none

/-- Header: the numbers of rows and of variables. -/
def header : Positioned (Nat × Nat) := do
  let n ← dimension tokens .constraintCount
  let m ← dimension tokens .variableCount
  if m = 0 then throw (.invalidDimensions .noVariables)
  endLine tokens
  return (n, m)

/-- An empty objective is refused by what stands there, another length by the line. -/
def objective (m : Nat) : Positioned (List Float) := do
  let line ← line tokens
  let values ← numbers tokens
  if values.length ≠ m then
    if values.isEmpty then refuse tokens .objective
    throw (.rowLength line m values.length)
  return values

def senseAndObjective (m : Nat) : Positioned (Sense × List Float) := do
  let sense ← sense tokens
  let objective ← objective tokens m
  endLine tokens
  return (sense, objective)

def rightHandSide (values : List Float) :
    Option Comparison → Positioned (List Float × Comparison × Float)
  | some c => do
    let rhs ← number tokens .rightHandSide
    return (values, c, rhs)
  | none =>
    match values.getLast? with
    | some rhs => return (values.dropLast, .eq, rhs)
    | none => refuse tokens .constraintRow

def checkLength (m line found : Nat) : Positioned Unit :=
  if found ≠ m then throw (.rowLength line m found) else pure ()

def row (m : Nat) : Positioned InputRow := do
  let line ← line tokens
  let values ← numbers tokens
  let (coefficients, comparison, rhs) ← rightHandSide tokens values (← comparison? tokens)
  checkLength m line coefficients.length
  endLine tokens
  return { coefficients, comparison, rhs, line }

def endOfFile : Positioned Unit := do
  skipBlankLines tokens
  if (← peekKind tokens) ≠ .eof then refuse tokens .endOfFile

def reference : Positioned (Reference Float) := do
  skipBlankLines tokens
  let objective ← number tokens .objectiveValue
  endLine tokens
  skipBlankLines tokens
  let values ← numbers tokens
  if values.isEmpty then refuse tokens .solutionVector
  endLine tokens
  endOfFile tokens
  return { objective, values }

variable {tokens}

theorem follows_dimension (what : Expected) :
    Follows tokens (dimension tokens what) (Parse.dimension what) := by
  refine (follows_number what).bind ?_
  intro value
  cases Parse.toDimension what value with
  | ok n => exact follows_pure n
  | error e => exact follows_throw e

theorem follows_optional {β : Type} {meaning : TokenKind → Option β} {default : β} {p : Parse β}
    (heof : meaning .eof = none)
    (htake : ∀ t ts x, meaning t.kind = some x → p (t :: ts) = .ok x ts)
    (hleave : ∀ ts, meaning (Parse.kindOf ts) = none → p ts = .ok default ts) :
    Follows tokens (optional tokens meaning default) p := by
  intro k hk
  rw [optional, peekKind_bind]
  cases hmeaning : meaning (kindAt tokens k) with
  | none =>
    rw [hleave _ (by rwa [kindOf_drop])]
    exact .ok default (Nat.le_refl k) hk
  | some x =>
    have hinside : kindAt tokens k ≠ .eof := by
      intro h
      rw [h, heof] at hmeaning
      cases hmeaning
    obtain ⟨t, _, hkind, hdrop, hlt⟩ := exists_token hinside
    rw [hdrop, htake t _ x (by rwa [hkind])]
    exact .ok x (Nat.le_succ k) hlt

theorem follows_sense : Follows tokens (sense tokens) Parse.sense :=
  follows_optional rfl (fun _ ts _ h => Parse.sense_of_word h ts) fun _ h => Parse.sense_of_none h

theorem follows_comparison? : Follows tokens (comparison? tokens) Parse.comparison? := by
  refine follows_optional rfl ?_ ?_
  · intro t ts x h
    obtain ⟨c, hc, rfl⟩ := Option.map_eq_some_iff.1 h
    exact Parse.comparison?_of_some hc ts
  · intro ts h
    exact Parse.comparison?_of_none (Option.map_eq_none_iff.1 h)

theorem follows_header : Follows tokens (header tokens) Parse.header :=
  (follows_dimension .constraintCount).bind fun n =>
    (follows_dimension .variableCount).bind fun m =>
      (follows_throw (.invalidDimensions .noVariables)).unless
        (follows_endLine.bind fun _ => follows_pure (n, m))

theorem follows_objective {m : Nat} (hm : 0 < m) :
    Follows tokens (objective tokens m) (Parse.objective m) := by
  have hrest (line : Nat) (values : List Float) :
      Follows tokens
        (if values.length ≠ m then
          if values.isEmpty then refuse tokens .objective
          else throw (.rowLength line m values.length)
        else pure values)
        (if values.isEmpty then Parse.refuse .objective
        else Parse.checkLength m line values.length >>= fun _ => pure values) := by
    by_cases hlength : values.length = m
    · have hne : values.isEmpty = false := by
        cases values with
        | nil => exact absurd hlength (Nat.ne_of_lt hm)
        | cons v vs => rfl
      rw [if_neg (not_not.2 hlength), hne, Parse.checkLength, if_pos hlength]
      exact follows_pure values
    · rw [if_pos hlength]
      split
      · exact follows_refuse .objective
      · rw [Parse.checkLength, if_neg hlength]
        exact follows_throw _
  exact follows_line.bind fun line => (follows_numbers tokens).bind fun values => hrest line values

theorem follows_senseAndObjective {m : Nat} (hm : 0 < m) :
    Follows tokens (senseAndObjective tokens m) (Parse.senseAndObjective m) :=
  follows_sense.bind fun sense => (follows_objective hm).bind fun objective =>
    follows_endLine.bind fun _ => follows_pure (sense, objective)

theorem follows_checkLength (m line found : Nat) :
    Follows tokens (checkLength m line found) (Parse.checkLength m line found) := by
  unfold checkLength Parse.checkLength
  by_cases h : found = m
  · rw [if_neg (not_not.2 h), if_pos h]
    exact follows_pure ()
  · rw [if_pos h, if_neg h]
    exact follows_throw _

theorem follows_rightHandSide (values : List Float) (c : Option Comparison) :
    Follows tokens (rightHandSide tokens values c) (Parse.rightHandSide values c) := by
  cases c with
  | some c => exact (follows_number .rightHandSide).bind fun rhs => follows_pure (values, c, rhs)
  | none =>
    unfold rightHandSide Parse.rightHandSide
    cases values.getLast? with
    | some rhs => exact follows_pure _
    | none => exact follows_refuse .constraintRow

theorem follows_row (m : Nat) : Follows tokens (row tokens m) (Parse.row m) :=
  follows_line.bind fun line => (follows_numbers tokens).bind fun values =>
    follows_comparison?.bind fun c => (follows_rightHandSide values c).bind fun x =>
    (follows_checkLength m line x.1.length).bind fun _ =>
    follows_endLine.bind fun _ => follows_pure _

theorem follows_endOfFile : Follows tokens (endOfFile tokens) Parse.endOfFile := by
  have hrest (kind : TokenKind) :
      Follows tokens (if kind ≠ .eof then refuse tokens .endOfFile else pure ())
        (if kind ≠ .eof then Parse.refuse .endOfFile else pure ()) := by
    split
    · exact follows_refuse .endOfFile
    · exact follows_pure ()
  exact follows_skipBlankLines.bind fun _ => follows_peekKind.bind hrest

theorem follows_reference : Follows tokens (reference tokens) Parse.reference :=
  follows_skipBlankLines.bind fun _ => (follows_number .objectiveValue).bind fun objective =>
    follows_endLine.bind fun _ => follows_skipBlankLines.bind fun _ =>
    (follows_numbers tokens).bind fun values => (follows_refuse .solutionVector).unless
      (follows_endLine.bind fun _ => follows_endOfFile.bind fun _ =>
        follows_pure (Reference.mk objective values))

end Files

end Positioned
end PenaltySimplex.Format
