import PenaltySimplex.Proofs.FileGrammar
import PenaltySimplex.Proofs.Lexing

/-!
# PenaltySimplex.Proofs.Parsing

What the parsers accept.

`Yields ts p R` says what a parser makes of the tokens `ts`: it succeeds with a value and what is
left exactly where the relation `R` joins the content of `ts`, the value and the content of what is
left. Comments are thus read over once and for all, and a sequence of parsers has the composition
of their relations (`Yields.bind`).

A parser that looks at the next token without skipping comments is run where no comment can
stand, after one that leaves none (`Settled`).

What the parsers of a line take, one after the other, is a line of the grammar: `objectiveLine_iff`
and `rowLine_iff`.
-/

namespace PenaltySimplex.Format

namespace Parse

/-- The next token is no comment. -/
def Settled (ts : List Token) : Prop := kindOf ts ≠ .comment

/-- What a parser makes of tokens, comments aside. -/
def Yields {β : Type} (ts : List Token) (p : Parse β)
    (R : List Token → β → List Token → Prop) : Prop :=
  ∀ x rest, (∃ left, p ts = .ok x left ∧ content left = rest) ↔ R (content ts) x rest

section Combinators

variable {β γ : Type} {ts : List Token}

theorem bind_eq_ok {p : Parse β} {f : β → Parse γ} {y : γ} {left : List Token} :
    (p >>= f) ts = .ok y left ↔ ∃ x middle, p ts = .ok x middle ∧ f x middle = .ok y left := by
  show EStateM.bind p f ts = _ ↔ _
  unfold EStateM.bind
  cases p ts with
  | ok x middle => simp
  | error e middle => simp

theorem bind_eq_error {p : Parse β} {f : β → Parse γ} {e : ParseError} {left : List Token} :
    (p >>= f) ts = .error e left ↔
      p ts = .error e left ∨ ∃ x middle, p ts = .ok x middle ∧ f x middle = .error e left := by
  show EStateM.bind p f ts = _ ↔ _
  unfold EStateM.bind
  cases p ts with
  | ok x middle => simp
  | error e middle => simp

theorem Yields.bind {p : Parse β} {f : β → Parse γ} {R : List Token → β → List Token → Prop}
    {S : β → List Token → γ → List Token → Prop} (hp : Yields ts p R)
    (hf : ∀ x left, p ts = .ok x left → Yields left (f x) (S x)) :
    Yields ts (p >>= f) fun us y rest => ∃ x middle, R us x middle ∧ S x middle y rest := by
  intro y rest
  simp only [bind_eq_ok]
  constructor
  · rintro ⟨left, ⟨x, middle, hx, hy⟩, hrest⟩
    refine ⟨x, content middle, (hp x _).1 ⟨middle, hx, rfl⟩, ?_⟩
    exact (hf x middle hx y rest).1 ⟨left, hy, hrest⟩
  · rintro ⟨x, us, hR, hS⟩
    obtain ⟨middle, hx, rfl⟩ := (hp x us).2 hR
    obtain ⟨left, hy, hrest⟩ := (hf x middle hx y rest).2 hS
    exact ⟨left, ⟨x, middle, hx, hy⟩, hrest⟩

theorem Yields.congr {p : Parse β} {R S : List Token → β → List Token → Prop}
    (hp : Yields ts p R) (h : ∀ x rest, R (content ts) x rest ↔ S (content ts) x rest) :
    Yields ts p S :=
  fun x rest => (hp x rest).trans (h x rest)

theorem yields_pure (x : β) :
    Yields ts (pure x) fun us y rest => y = x ∧ rest = us := by
  intro y rest
  constructor
  · rintro ⟨left, hok, rfl⟩
    cases hok
    exact ⟨rfl, rfl⟩
  · rintro ⟨rfl, rfl⟩
    exact ⟨ts, rfl, rfl⟩

theorem yields_of_error {p : Parse β} (h : ∀ x left, p ts ≠ .ok x left) :
    Yields ts p fun _ _ _ => False := by
  intro x rest
  constructor
  · rintro ⟨left, hok, _⟩
    exact h x left hok
  · exact False.elim

end Combinators

/-! ## Content -/

theorem content_cons_comment {t : Token} (h : t.isComment = true) (ts : List Token) :
    content (t :: ts) = content ts :=
  List.filter_cons_of_neg (by rw [h]; decide)

theorem content_cons {t : Token} (h : t.isComment = false) (ts : List Token) :
    content (t :: ts) = t :: content ts :=
  List.filter_cons_of_pos (by rw [h]; rfl)

theorem content_of_settled {t : Token} {ts : List Token} (h : Settled (t :: ts)) :
    content (t :: ts) = t :: content ts := by
  refine content_cons ?_ ts
  rw [Token.isComment]
  exact beq_eq_false_iff_ne.2 h

theorem kindOf_content {ts : List Token} (h : Settled ts) : kindOf (content ts) = kindOf ts := by
  cases ts with
  | nil => rfl
  | cons t ts => rw [content_of_settled h]; rfl

theorem lineOf_content {ts : List Token} (h : Settled ts) : lineOf (content ts) = lineOf ts := by
  cases ts with
  | nil => rfl
  | cons t ts => rw [content_of_settled h]; rfl

theorem settled_dropComments (ts : List Token) : Settled (ts.dropWhile Token.isComment) := by
  intro h
  have hhead := List.head?_dropWhile_not Token.isComment ts
  cases hts : ts.dropWhile Token.isComment with
  | nil => rw [hts] at h; cases h
  | cons t rest =>
    rw [hts] at h hhead
    have hkind : t.kind = .comment := h
    simp [Token.isComment, hkind] at hhead

theorem content_dropComments (ts : List Token) :
    content (ts.dropWhile Token.isComment) = content ts := by
  induction ts with
  | nil => rfl
  | cons t ts ih =>
    cases h : t.isComment with
    | true => rw [List.dropWhile_cons_of_pos h, ih, content_cons_comment h]
    | false => rw [List.dropWhile_cons_of_neg (by rw [h]; decide)]

theorem settled_dropBlank (ts : List Token) : Settled (ts.dropWhile Token.isBlank) := by
  intro h
  have hhead := List.head?_dropWhile_not Token.isBlank ts
  cases hts : ts.dropWhile Token.isBlank with
  | nil => rw [hts] at h; cases h
  | cons t rest =>
    rw [hts] at h hhead
    have hkind : t.kind = .comment := h
    simp [Token.isBlank, hkind] at hhead

theorem dropBlank_newline {t : Token} (h : t.kind = .newline) (ts : List Token) :
    (t :: ts).dropWhile Token.isBlank = ts.dropWhile Token.isBlank :=
  List.dropWhile_cons_of_pos (by rw [Token.isBlank, h]; rfl)

theorem dropBlank_comment {t : Token} (h : t.isComment = true) (ts : List Token) :
    (t :: ts).dropWhile Token.isBlank = ts.dropWhile Token.isBlank :=
  List.dropWhile_cons_of_pos (by rw [Token.isBlank, ← Token.isComment, h, Bool.or_true])

theorem dropBlank_content {t : Token} (hcomment : t.isComment = false) (h : t.kind ≠ .newline)
    (ts : List Token) : (t :: ts).dropWhile Token.isBlank = t :: ts := by
  refine List.dropWhile_cons_of_neg ?_
  rw [Token.isBlank, ← Token.isComment, hcomment, Bool.or_false]
  exact fun hblank => h (beq_iff_eq.1 hblank)

theorem content_dropBlank (ts : List Token) :
    content (ts.dropWhile Token.isBlank) = skipNewlines (content ts) := by
  induction ts with
  | nil => rfl
  | cons t ts ih =>
    cases hcomment : t.isComment with
    | true => rw [content_cons_comment hcomment, ← ih, dropBlank_comment hcomment]
    | false =>
      rw [content_cons hcomment]
      by_cases hnewline : t.kind = .newline
      · rw [skipNewlines_newline hnewline, ← ih, dropBlank_newline hnewline]
      · rw [skipNewlines_of_ne hnewline, dropBlank_content hcomment hnewline,
          content_cons hcomment]

/-! ## Parsers -/

theorem yields_endLine (ts : List Token) :
    Yields ts endLine fun us _ rest => LineEnd us rest := by
  intro x rest
  have hsettled := settled_dropComments ts
  rw [← content_dropComments ts]
  unfold endLine
  split
  · rename_i h
    rw [h]
    constructor
    · rintro ⟨left, hok, rfl⟩
      cases hok
      exact Or.inr ⟨rfl, rfl⟩
    · rintro (⟨t, _, hnil⟩ | ⟨_, rfl⟩)
      · cases hnil
      · exact ⟨[], rfl, rfl⟩
  · rename_i t others h
    rw [h] at hsettled ⊢
    rw [content_of_settled hsettled]
    split
    · rename_i hkind
      constructor
      · rintro ⟨left, hok, rfl⟩
        cases hok
        exact Or.inl ⟨t, hkind, rfl⟩
      · rintro (⟨u, _, hcons⟩ | ⟨heof, _⟩)
        · obtain ⟨_, rfl⟩ := List.cons.inj hcons
          exact ⟨others, rfl, rfl⟩
        · exact nomatch hkind.symm.trans heof
    · rename_i hkind
      constructor
      · rintro ⟨left, hok, rfl⟩
        cases hok
        exact Or.inr ⟨hkind, content_of_settled hsettled⟩
      · rintro (⟨u, hu, hcons⟩ | ⟨_, rfl⟩)
        · obtain ⟨rfl, _⟩ := List.cons.inj hcons
          exact nomatch hkind.symm.trans hu
        · exact ⟨t :: others, rfl, content_of_settled hsettled⟩
    · rename_i hnewline heof
      constructor
      · rintro ⟨left, hok, _⟩
        cases hok
      · rintro (⟨u, hu, hcons⟩ | ⟨hu, _⟩)
        · obtain ⟨rfl, _⟩ := List.cons.inj hcons
          exact absurd hu hnewline
        · exact absurd hu heof

theorem value?_eq_some_iff {t : Token} {v : Float} :
    t.value? = some v ↔ Decimal.readFloat t.text = some v ∧ v.isFinite = true := by
  rw [Token.value?, Option.filter_eq_some_iff]

theorem yields_number (expected : Expected) (ts : List Token) :
    Yields ts (number expected) fun us v rest => ∃ t, t.Means v ∧ us = t :: rest := by
  intro v rest
  have hsettled := settled_dropComments ts
  rw [← content_dropComments ts]
  unfold number
  split
  · rename_i h
    rw [h]
    constructor
    · rintro ⟨left, hok, _⟩
      cases hok
    · rintro ⟨t, _, hnil⟩
      cases hnil
  · rename_i t others h
    rw [h] at hsettled ⊢
    rw [content_of_settled hsettled]
    constructor
    · rintro ⟨left, hok, rfl⟩
      split at hok
      · rename_i hkind
        split at hok
        · rename_i w hvalue
          cases hok
          obtain ⟨hreads, hfinite⟩ := value?_eq_some_iff.1 hvalue
          exact ⟨t, ⟨hkind, hreads, hfinite⟩, rfl⟩
        · cases hok
      · cases hok
    · rintro ⟨u, hu, hcons⟩
      obtain ⟨rfl, rfl⟩ := List.cons.inj hcons
      rw [if_pos hu.kind, value?_eq_some_iff.2 ⟨hu.reads, hu.finite⟩]
      exact ⟨others, rfl, rfl⟩

/-- The numbers at the front and their values. -/
def Numbers (us : List Token) (vs : List Float) (rest : List Token) : Prop :=
  ∃ line, Values line vs ∧ us = line ++ rest ∧ kindOf rest ≠ .number

theorem numbers_of_ne {us : List Token} (h : kindOf us ≠ .number) {vs : List Float}
    {rest : List Token} : Numbers us vs rest ↔ vs = [] ∧ rest = us := by
  constructor
  · rintro ⟨line, hvalues, rfl, _⟩
    cases hvalues with
    | nil => exact ⟨rfl, rfl⟩
    | cons hfirst _ => exact absurd hfirst.kind h
  · rintro ⟨rfl, rfl⟩
    exact ⟨[], .nil, rfl, h⟩

theorem numbers_cons {t : Token} (h : t.kind = .number) {us : List Token} {vs : List Float}
    {rest : List Token} :
    Numbers (t :: us) vs rest ↔
      ∃ v others, t.Means v ∧ vs = v :: others ∧ Numbers us others rest := by
  constructor
  · rintro ⟨line, hvalues, hcons, hne⟩
    cases hvalues with
    | nil =>
      rw [List.nil_append] at hcons
      rw [← hcons] at hne
      exact absurd h hne
    | cons hfirst hvalues =>
      obtain ⟨rfl, rfl⟩ := List.cons.inj hcons
      exact ⟨_, _, hfirst, rfl, _, hvalues, rfl, hne⟩
  · rintro ⟨v, others, hfirst, rfl, line, hvalues, rfl, hne⟩
    exact ⟨t :: line, .cons hfirst hvalues, rfl, hne⟩

theorem settled_numbers {ts : List Token} {vs : List Float} {left : List Token}
    (h : numbers ts = .ok vs left) : Settled left := by
  fun_induction numbers ts generalizing vs left with
  | case1 => cases h; exact nofun
  | case2 t rest hkind ih => exact ih h
  | case3 t rest hkind hvalue => cases h
  | case4 t rest hkind v hvalue vs' left' hrest ih =>
    cases h
    exact ih hrest
  | case5 t rest hkind v hvalue e left' hrest ih => cases h
  | case6 t rest hcomment hnumber =>
    cases h
    exact hcomment

theorem yields_numbers (ts : List Token) : Yields ts numbers Numbers := by
  intro vs rest
  induction ts generalizing vs with
  | nil =>
    have hend : kindOf (content []) ≠ .number := by decide
    rw [numbers_of_ne hend]
    constructor
    · rintro ⟨left, hok, rfl⟩
      cases hok
      exact ⟨rfl, rfl⟩
    · rintro ⟨rfl, rfl⟩
      exact ⟨[], rfl, rfl⟩
  | cons t ts ih =>
    rw [numbers]
    split
    · rename_i hkind
      rw [content_cons_comment (beq_iff_eq.2 hkind)]
      exact ih vs
    · rename_i hkind
      rw [content_of_settled (fun h => nomatch hkind.symm.trans h), numbers_cons hkind]
      constructor
      · rintro ⟨left, hok, hrest⟩
        split at hok
        · cases hok
        · rename_i v hvalue
          split at hok
          · rename_i others left' hnumbers
            cases hok
            obtain ⟨hreads, hfinite⟩ := value?_eq_some_iff.1 hvalue
            exact ⟨v, others, ⟨hkind, hreads, hfinite⟩, rfl, (ih others).1 ⟨_, hnumbers, hrest⟩⟩
          · cases hok
      · rintro ⟨v, others, hfirst, rfl, hothers⟩
        obtain ⟨left, hnumbers, hrest⟩ := (ih others).2 hothers
        rw [value?_eq_some_iff.2 ⟨hfirst.reads, hfirst.finite⟩, hnumbers]
        exact ⟨left, rfl, hrest⟩
    · rename_i hcomment hnumber
      have hkind : kindOf (t :: content ts) ≠ .number := hnumber
      rw [content_of_settled hcomment, numbers_of_ne hkind]
      constructor
      · rintro ⟨left, hok, rfl⟩
        cases hok
        exact ⟨rfl, content_of_settled hcomment⟩
      · rintro ⟨rfl, rfl⟩
        exact ⟨_, rfl, content_of_settled hcomment⟩

/-! ## Numbers in a header -/

theorem maxDimension_eq : maxDimension = 2 ^ 32 - 1 := rfl

theorem toDimension_eq_ok_iff {what : Expected} {v : Float} {n : Nat} :
    toDimension what v = .ok n ↔
      (Decimal.Binary.ofFloat v).rational? = some (n : ℚ) ∧ n ≤ 2 ^ 32 - 1 := by
  rw [← Decimal.Binary.natural?_eq_some_iff, ← maxDimension_eq, toDimension]
  split
  · rename_i h
    rw [h]
    exact ⟨nofun, nofun⟩
  · rename_i k h
    rw [h, Option.some_inj]
    split
    · rename_i hle
      constructor
      · intro hok
        cases hok
        exact ⟨rfl, hle⟩
      · rintro ⟨rfl, _⟩
        rfl
    · rename_i hlt
      constructor
      · intro hok
        cases hok
      · rintro ⟨rfl, hle⟩
        exact absurd hle hlt

theorem yields_dimension (what : Expected) (ts : List Token) :
    Yields ts (dimension what) fun us n rest => ∃ t, t.Counts n ∧ us = t :: rest := by
  have hnumber := yields_number what ts
  refine (hnumber.bind (S := fun v us n rest => toDimension what v = .ok n ∧ rest = us)
    fun v left _ => ?_).congr fun n rest => ?_
  · cases h : toDimension what v with
    | ok n =>
      refine (yields_pure n).congr fun k rest => ?_
      rw [Except.ok.injEq, eq_comm]
    | error e => exact (yields_of_error nofun).congr fun k rest => ⟨nofun, nofun⟩
  · constructor
    · rintro ⟨v, us, ⟨t, ht, hcons⟩, hn, rfl⟩
      exact ⟨t, ⟨v, ht, toDimension_eq_ok_iff.1 hn⟩, hcons⟩
    · rintro ⟨t, ⟨v, ht, hn⟩, hcons⟩
      exact ⟨v, rest, ⟨t, ht, hcons⟩, toDimension_eq_ok_iff.2 hn, rfl⟩

/-! ## Words and comparisons -/

/-- A parser that takes the next token if its kind stands for something. -/
theorem yields_optional {β : Type} {p : Parse β} {f : TokenKind → Option β} {default : β}
    (htake : ∀ t ts x, f t.kind = some x → p (t :: ts) = .ok x ts)
    (hleave : ∀ ts, f (kindOf ts) = none → p ts = .ok default ts) (heof : f .eof = none)
    {ts : List Token} (hts : Settled ts) :
    Yields ts p fun us x rest =>
      (∃ t, f t.kind = some x ∧ us = t :: rest) ∨
      (f (kindOf us) = none ∧ x = default ∧ rest = us) := by
  intro x rest
  cases hf : f (kindOf ts) with
  | none =>
    have hcontent : f (kindOf (content ts)) = none := by rw [kindOf_content hts, hf]
    rw [hleave ts hf]
    constructor
    · rintro ⟨left, hok, rfl⟩
      cases hok
      exact Or.inr ⟨hcontent, rfl, rfl⟩
    · rintro (⟨t, ht, hcons⟩ | ⟨_, rfl, rfl⟩)
      · rw [hcons] at hcontent
        exact nomatch hcontent.symm.trans ht
      · exact ⟨ts, rfl, rfl⟩
  | some y =>
    cases ts with
    | nil => exact nomatch heof.symm.trans hf
    | cons t ts =>
      rw [htake t ts y hf, content_of_settled hts]
      constructor
      · rintro ⟨left, hok, rfl⟩
        cases hok
        exact Or.inl ⟨t, hf, rfl⟩
      · rintro (⟨u, hu, hcons⟩ | ⟨hnone, _⟩)
        · obtain ⟨rfl, rfl⟩ := List.cons.inj hcons
          obtain rfl := Option.some.inj (hf.symm.trans hu)
          exact ⟨ts, rfl, rfl⟩
        · exact nomatch hf.symm.trans hnone

def senseOf : TokenKind → Option Sense
  | .min => some .minimize
  | .max => some .maximize
  | _ => none

theorem senseOf_eq_some_iff {k : TokenKind} {s : Sense} :
    senseOf k = some s ↔ k = .min ∧ s = .minimize ∨ k = .max ∧ s = .maximize := by
  cases k <;> cases s <;> decide

/-- The sense at the front, if there is one. -/
def TakesSense (us : List Token) (s : Sense) (rest : List Token) : Prop :=
  (∃ t, senseOf t.kind = some s ∧ us = t :: rest) ∨
    (senseOf (kindOf us) = none ∧ s = .minimize ∧ rest = us)

theorem sense_of_word {t : Token} {s : Sense} (h : senseOf t.kind = some s) (ts : List Token) :
    sense (t :: ts) = .ok s ts := by
  obtain ⟨hkind, rfl⟩ | ⟨hkind, rfl⟩ := senseOf_eq_some_iff.1 h
  · simp only [sense, hkind]
  · simp only [sense, hkind]

theorem sense_of_none {ts : List Token} (h : senseOf (kindOf ts) = none) :
    sense ts = .ok .minimize ts := by
  obtain _ | ⟨⟨kind, span, line, text⟩, ts⟩ := ts
  · rfl
  · cases kind <;> first | rfl | cases h

theorem yields_sense {ts : List Token} (hts : Settled ts) : Yields ts sense TakesSense :=
  yields_optional (fun _ ts _ h => sense_of_word h ts) (fun _ h => sense_of_none h) rfl hts

theorem comparisonOf_eq_some_iff {k : TokenKind} {c : Comparison} :
    comparisonOf k = some c ↔ k = comparisonKind c := by
  cases k <;> cases c <;> decide

/-- The comparison at the front, if there is one. -/
def TakesComparison (us : List Token) (o : Option Comparison) (rest : List Token) : Prop :=
  (∃ t c, t.kind = comparisonKind c ∧ o = some c ∧ us = t :: rest) ∨
    (comparisonOf (kindOf us) = none ∧ o = none ∧ rest = us)

theorem comparison?_of_some {t : Token} {c : Comparison} (h : comparisonOf t.kind = some c)
    (ts : List Token) : comparison? (t :: ts) = .ok (some c) ts := by
  simp only [comparison?, h]

theorem comparison?_of_none {ts : List Token} (h : comparisonOf (kindOf ts) = none) :
    comparison? ts = .ok none ts := by
  cases ts with
  | nil => rfl
  | cons t ts =>
    have hnone : comparisonOf t.kind = none := h
    simp only [comparison?, hnone]

theorem yields_comparison? {ts : List Token} (hts : Settled ts) :
    Yields ts comparison? TakesComparison := by
  have hoptional : Yields ts comparison? fun us x rest =>
      (∃ t, (comparisonOf t.kind).map some = some x ∧ us = t :: rest) ∨
      ((comparisonOf (kindOf us)).map some = none ∧ x = none ∧ rest = us) := by
    refine yields_optional (f := fun k => (comparisonOf k).map some) ?_ ?_ rfl hts
    · intro t ts x h
      obtain ⟨c, hc, rfl⟩ := Option.map_eq_some_iff.1 h
      exact comparison?_of_some hc ts
    · exact fun ts h => comparison?_of_none (Option.map_eq_none_iff.1 h)
  refine hoptional.congr fun x rest => ?_
  unfold TakesComparison
  simp only [Option.map_eq_some_iff, Option.map_eq_none_iff, comparisonOf_eq_some_iff]
  refine or_congr (exists_congr fun t => ?_) Iff.rfl
  constructor
  · rintro ⟨⟨c, hc, rfl⟩, hcons⟩
    exact ⟨c, hc, rfl, hcons⟩
  · rintro ⟨c, hc, rfl, hcons⟩
    exact ⟨⟨c, hc, rfl⟩, hcons⟩

theorem yields_checkLength (m line found : Nat) (ts : List Token) :
    Yields ts (checkLength m line found) fun us _ rest => found = m ∧ rest = us := by
  rw [checkLength]
  split
  · rename_i h
    exact (yields_pure ()).congr fun x rest => by simp [h]
  · rename_i h
    exact (yields_of_error nofun).congr fun x rest => by simp [h]

/-- The right-hand side after a comparison, or the last of the numbers before it. -/
def TakesRightHandSide (vs : List Float) (o : Option Comparison) (us : List Token)
    (x : List Float × Comparison × Float) (rest : List Token) : Prop :=
  (∃ t, o = some x.2.1 ∧ x.1 = vs ∧ t.Means x.2.2 ∧ us = t :: rest) ∨
    (o = none ∧ x.2.1 = .eq ∧ vs = x.1 ++ [x.2.2] ∧ rest = us)

theorem yields_rightHandSide (vs : List Float) (o : Option Comparison) (ts : List Token) :
    Yields ts (rightHandSide vs o) (TakesRightHandSide vs o) := by
  cases o with
  | some c =>
    refine ((yields_number .rightHandSide ts).bind fun b _ _ => yields_pure _).congr
      fun x rest => ?_
    constructor
    · rintro ⟨b, us, ⟨t, ht, hcons⟩, rfl, rfl⟩
      exact Or.inl ⟨t, rfl, rfl, ht, hcons⟩
    · obtain ⟨cs, d, b⟩ := x
      rintro (⟨t, hd, rfl, ht, hcons⟩ | ⟨hnone, _⟩)
      · obtain rfl := Option.some.inj hd
        exact ⟨b, rest, ⟨t, ht, hcons⟩, rfl, rfl⟩
      · cases hnone
  | none =>
    rw [rightHandSide]
    split
    · rename_i b hb
      refine (yields_pure _).congr fun x rest => ?_
      have hvs := List.dropLast_append_getLast? b hb
      constructor
      · rintro ⟨rfl, rfl⟩
        exact Or.inr ⟨rfl, rfl, hvs.symm, rfl⟩
      · obtain ⟨cs, d, b'⟩ := x
        rintro (⟨t, hd, _⟩ | ⟨_, rfl, rfl, rfl⟩)
        · cases hd
        · obtain ⟨hcs, hb⟩ := List.append_inj' hvs rfl
          obtain rfl := List.singleton_inj.1 hb
          exact ⟨by rw [hcs], rfl⟩
    · rename_i hnone
      refine (yields_of_error nofun).congr fun x rest => ?_
      rw [List.getLast?_eq_none_iff.1 hnone, TakesRightHandSide]
      simp

theorem yields_get {β : Type} {f : List Token → Parse β} {ts : List Token}
    {R : List Token → β → List Token → Prop} (h : Yields ts (f ts) R) :
    Yields ts (get >>= f) R := h

/-- What stands at the end of a line is neither a number nor a comparison. -/
theorem kindOf_of_lineEnd {us rest : List Token} (h : LineEnd us rest) :
    kindOf us = .newline ∨ kindOf us = .eof := by
  obtain ⟨t, ht, rfl⟩ | ⟨heof, _⟩ := h
  · exact Or.inl ht
  · exact Or.inr heof

theorem numbers_of_lineEnd {line mid rest : List Token} {vs : List Float}
    (hvalues : Values line vs) (hend : LineEnd mid rest) : Numbers (line ++ mid) vs mid := by
  refine ⟨line, hvalues, rfl, ?_⟩
  obtain h | h := kindOf_of_lineEnd hend <;> rw [h] <;> decide

theorem comparisonKind_ne_number (c : Comparison) : comparisonKind c ≠ .number := by
  cases c <;> decide

theorem values_concat {line : List Token} {vs : List Float} {v : Float} :
    Values line (vs ++ [v]) ↔ ∃ front t, line = front ++ [t] ∧ Values front vs ∧ t.Means v := by
  constructor
  · intro h
    have hfront := List.forall₂_take_append line vs [v] h
    have hlast := List.forall₂_drop_append line vs [v] h
    obtain ⟨t, _, ht, hnil, hdrop⟩ := List.forall₂_cons_right_iff.1 hlast
    rw [List.forall₂_nil_right_iff.1 hnil] at hdrop
    exact ⟨_, t, by rw [← hdrop, List.take_append_drop], hfront, ht⟩
  · rintro ⟨front, t, rfl, hfront, ht⟩
    exact List.rel_append hfront (.cons ht .nil)

/-- A sense and numbers make up an objective where its line ends. -/
theorem objectiveLine_iff {us mid rest : List Token} {s : Sense} {cs : List Float}
    (hend : LineEnd mid rest) (hne : cs ≠ []) :
    (∃ us', TakesSense us s us' ∧ Numbers us' cs mid) ↔
      ∃ line, us = line ++ mid ∧ ObjectiveLine line s cs := by
  constructor
  · rintro ⟨us', hs, line, hvalues, rfl, _⟩
    obtain ⟨t, ht, rfl⟩ | ⟨_, rfl, rfl⟩ := hs
    · obtain ⟨hkind, rfl⟩ | ⟨hkind, rfl⟩ := senseOf_eq_some_iff.1 ht
      · exact ⟨t :: line, rfl, .min hkind hvalues⟩
      · exact ⟨t :: line, rfl, .max hkind hvalues⟩
    · exact ⟨line, rfl, .bare hvalues⟩
  · rintro ⟨line, rfl, hline⟩
    cases hline with
    | bare hvalues =>
      -- the line starts with a number, as there is one, and so with no sense
      have hsense : senseOf (kindOf (line ++ mid)) = none := by
        cases hvalues with
        | nil => exact absurd rfl hne
        | cons hfirst _ => rw [List.cons_append, kindOf, hfirst.kind]; rfl
      exact ⟨_, Or.inr ⟨hsense, rfl, rfl⟩, numbers_of_lineEnd hvalues hend⟩
    | @min t line _ ht hvalues =>
      exact ⟨line ++ mid, Or.inl ⟨t, senseOf_eq_some_iff.2 (Or.inl ⟨ht, rfl⟩), rfl⟩,
        numbers_of_lineEnd hvalues hend⟩
    | @max t line _ ht hvalues =>
      exact ⟨line ++ mid, Or.inl ⟨t, senseOf_eq_some_iff.2 (Or.inr ⟨ht, rfl⟩), rfl⟩,
        numbers_of_lineEnd hvalues hend⟩

/-- Numbers, a comparison and a right-hand side make up a row where its line ends. -/
theorem rowLine_iff {us mid rest : List Token} {x : List Float × Comparison × Float}
    (hend : LineEnd mid rest) :
    (∃ vs us', Numbers us vs us' ∧ ∃ o us'', TakesComparison us' o us'' ∧
      TakesRightHandSide vs o us'' x mid) ↔
    ∃ line, us = line ++ mid ∧ RowLine line x.1 x.2.1 x.2.2 := by
  obtain ⟨cs, c, b⟩ := x
  constructor
  · rintro ⟨vs, us', ⟨line, hvalues, rfl, _⟩, o, us'', ho, hrhs⟩
    obtain ⟨t, hsome, rfl, ht, rfl⟩ | ⟨hnone, hc, rfl, rfl⟩ := hrhs
    · obtain ⟨op, d, hop, hd, rfl⟩ | ⟨_, hnone, _⟩ := ho
      · obtain rfl := Option.some.inj (hsome.symm.trans hd)
        exact ⟨line ++ [op, t], by rw [List.append_assoc]; rfl, .compared hvalues hop ht⟩
      · exact nomatch hsome.symm.trans hnone
    · obtain ⟨op, d, _, hd, _⟩ | ⟨_, _, rfl⟩ := ho
      · exact nomatch hnone.symm.trans hd
      · obtain rfl : c = .eq := hc
        obtain ⟨front, t, rfl, hfront, ht⟩ := values_concat.1 hvalues
        exact ⟨front ++ [t], rfl, .bare hfront ht⟩
  · rintro ⟨line, rfl, hform⟩
    cases hform with
    | @compared line op t _ _ _ hvalues hop ht =>
      have hnumbers : Numbers (line ++ [op, t] ++ mid) cs (op :: t :: mid) :=
        ⟨line, hvalues, List.append_assoc _ _ _, hop.trans_ne (comparisonKind_ne_number c)⟩
      exact ⟨cs, _, hnumbers, some c, _, Or.inl ⟨op, c, hop, rfl, rfl⟩,
        Or.inl ⟨t, rfl, rfl, ht, rfl⟩⟩
    | @bare line t _ _ hvalues ht =>
      -- the right-hand side is read with the coefficients and split off them
      have hall : Values (line ++ [t]) (cs ++ [b]) :=
        values_concat.2 ⟨line, t, rfl, hvalues, ht⟩
      have hcomparison : comparisonOf (kindOf mid) = none := by
        obtain h | h := kindOf_of_lineEnd hend <;> rw [h] <;> rfl
      exact ⟨cs ++ [b], mid, numbers_of_lineEnd hall hend, none, mid,
        Or.inr ⟨hcomparison, rfl, rfl⟩, Or.inr ⟨rfl, rfl, rfl, rfl⟩⟩

/-- What follows a refusal that comes under a condition. -/
theorem yields_unless {β : Type} {c : Prop} [Decidable c] {p : Parse Unit} {f : Unit → Parse β}
    {ts : List Token} {R : List Token → β → List Token → Prop}
    (hp : ∀ x left, p ts ≠ .ok x left) (hf : Yields ts (f ()) R) :
    Yields ts (if c then p >>= f else f ()) fun us x rest => ¬c ∧ R us x rest := by
  split
  · rename_i hc
    refine (yields_of_error ?_).congr fun x rest => ⟨False.elim, fun h => h.1 hc⟩
    intro y left h
    obtain ⟨x, middle, hx, _⟩ := bind_eq_ok.1 h
    exact hp x middle hx
  · rename_i hc
    exact hf.congr fun x rest => ⟨fun h => ⟨hc, h⟩, fun h => h.2⟩

theorem yields_objective (m : Nat) (ts : List Token) :
    Yields ts (objective m) fun us cs rest => Numbers us cs rest ∧ cs ≠ [] ∧ cs.length = m := by
  refine yields_get (Yields.congr ((yields_numbers ts).bind fun vs _ _ =>
    yields_unless (c := vs.isEmpty = true) nofun
      ((yields_checkLength m _ vs.length _).bind fun _ _ _ => yields_pure vs)) fun cs rest => ?_)
  simp only [List.isEmpty_iff]
  constructor
  · rintro ⟨_, _, hnumbers, hne, _, _, ⟨hlength, rfl⟩, rfl, rfl⟩
    exact ⟨hnumbers, hne, hlength⟩
  · rintro ⟨hnumbers, hne, hlength⟩
    exact ⟨cs, rest, hnumbers, hne, (), rest, ⟨hlength, rfl⟩, rfl, rfl⟩

end Parse

end PenaltySimplex.Format
