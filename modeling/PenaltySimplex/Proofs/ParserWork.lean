import PenaltySimplex.Proofs.TokenPositions

/-!
# PenaltySimplex.Proofs.ParserWork

The work of the parsers is bounded by the tokens, whatever the header announces.

* `Positioned.row_advances`: a row takes a token for each variable and one for the right-hand side.
* `Counted.input`: the parser of input files over a position, with a count of the rows started.
* `RowsBounded`: at most one of the rows started has not been read. A row that is read moves the
  position on and one that is refused ends the loop, so every round keeps this
  (`rowsBounded_rows`).
* `parse_within_tokens`: where the parsers stop, and how often the loop over the rows is entered.
-/

namespace PenaltySimplex.Format

/-! ## Tokens that are taken -/

namespace Parse

variable {ts left : List Token}

theorem length_numbers {vs : List Float} (h : numbers ts = .ok vs left) :
    left.length + vs.length ≤ ts.length := by
  fun_induction numbers ts generalizing vs left with
  | case1 => cases h; exact Nat.le_refl _
  | case2 t rest hkind ih => exact (ih h).trans (Nat.le_succ _)
  | case3 t rest hkind hvalue => cases h
  | case4 t rest hkind v hvalue vs' left' hrest ih =>
    cases h
    exact Nat.succ_le_succ (ih hrest)
  | case5 t rest hkind v hvalue e left' hrest ih => cases h
  | case6 t rest hcomment hnumber => cases h; exact Nat.le_refl _

/-- The right-hand side is a token more, or the last of the numbers. -/
theorem length_rightHandSide {vs : List Float} {c : Option Comparison}
    {x : List Float × Comparison × Float} (h : rightHandSide vs c ts = .ok x left) :
    left.length + (x.1.length + 1) ≤ ts.length + vs.length := by
  cases c with
  | some c =>
    obtain ⟨rhs, middle, hnumber, hpure⟩ := bind_eq_ok.1 h
    cases hpure
    have hlt := length_lt_of_number hnumber
    show left.length + (vs.length + 1) ≤ _
    omega
  | none =>
    unfold rightHandSide at h
    cases hlast : vs.getLast? with
    | none =>
      rw [hlast] at h
      cases h
    | some rhs =>
      rw [hlast] at h
      cases h
      have hlength := congrArg List.length (List.dropLast_append_getLast? rhs hlast)
      rw [List.length_append] at hlength
      exact Nat.add_le_add_left (Nat.le_of_eq hlength) _

theorem checkLength_eq_ok {m line found : Nat} {x : Unit}
    (h : checkLength m line found ts = .ok x left) : found = m ∧ left = ts := by
  unfold checkLength at h
  split at h
  · cases h
    exact ⟨‹_›, rfl⟩
  · cases h

theorem length_row {m : Nat} {x : InputRow} (h : row m ts = .ok x left) :
    left.length + (m + 1) ≤ ts.length := by
  rw [row_apply] at h
  obtain ⟨vs, us, hnumbers, h⟩ := bind_eq_ok.1 h
  obtain ⟨c, us', hcomparison, h⟩ := bind_eq_ok.1 h
  obtain ⟨y, us'', hrhs, h⟩ := bind_eq_ok.1 h
  obtain ⟨_, mid, hcheck, h⟩ := bind_eq_ok.1 h
  obtain ⟨_, rest, hend, hpure⟩ := bind_eq_ok.1 h
  cases hpure
  obtain ⟨rfl, rfl⟩ := checkLength_eq_ok hcheck
  have hcomparisonFront : TakesFront true comparison? := takesFront_comparison?
  have hendFront : TakesFront true endLine := takesFront_endLine
  have hnumbersLength := length_numbers hnumbers
  have hcomparisonLength := (hcomparisonFront.suffix hcomparison).length_le
  have hrhsLength := length_rightHandSide hrhs
  have hendLength := (hendFront.suffix hend).length_le
  omega

theorem pos_of_header {x : Nat × Nat} (h : header ts = .ok x left) : 0 < x.2 := by
  obtain ⟨n, _, _, h⟩ := bind_eq_ok.1 h
  obtain ⟨m, _, _, h⟩ := bind_eq_ok.1 h
  by_cases hm : m = 0
  · rw [if_pos hm] at h
    cases h
  · rw [if_neg hm] at h
    obtain ⟨_, _, _, hpure⟩ := bind_eq_ok.1 h
    cases hpure
    exact Nat.pos_of_ne_zero hm

theorem length_senseAndObjective {m : Nat} {x : Sense × List Float}
    (h : senseAndObjective m ts = .ok x left) : x.2.length = m := by
  obtain ⟨_, us, _, h⟩ := bind_eq_ok.1 h
  obtain ⟨cs, mid, hobjective, h⟩ := bind_eq_ok.1 h
  obtain ⟨_, _, _, hpure⟩ := bind_eq_ok.1 h
  cases hpure
  exact ((yields_objective m us cs _).1 ⟨mid, hobjective, rfl⟩).2.2

end Parse

/-! ## Positions -/

namespace Positioned

variable {β : Type} {tokens : List Token} {k k' : Nat}

/-- A parser from the next line on that is not blank. -/
def nextLine (tokens : List Token) (q : Positioned β) : Positioned β := do
  skipBlankLines tokens
  q

theorem follows_nextLine {q : Positioned β} {p : Parse β} (hq : Follows tokens q p) :
    Follows tokens (nextLine tokens q) (Parse.skipBlankLines >>= fun _ => p) :=
  follows_skipBlankLines.bind fun _ => hq

theorem follows_nextRow (m : Nat) :
    Follows tokens (nextLine tokens (row tokens m))
      (Parse.skipBlankLines >>= fun _ => Parse.row m) :=
  follows_nextLine (follows_row m)

theorem follows_nextObjective {m : Nat} (hm : 0 < m) :
    Follows tokens (nextLine tokens (senseAndObjective tokens m))
      (Parse.skipBlankLines >>= fun _ => Parse.senseAndObjective m) :=
  follows_nextLine (follows_senseAndObjective hm)

theorem nextLine_eq_ok {q : Positioned β} {x : β} (hk : k ≤ tokens.length)
    (h : nextLine tokens q k = .ok x k') :
    ∃ first, k ≤ first ∧ first ≤ tokens.length ∧ q first = .ok x k' :=
  ⟨_, le_pass k, pass_le hk, h⟩

theorem row_advances {m : Nat} {x : InputRow} (hk : k ≤ tokens.length)
    (h : row tokens m k = .ok x k') : k + (m + 1) ≤ k' := by
  obtain ⟨hlist, _, hk'⟩ := (follows_row m).eq_ok hk h
  have hlength := Parse.length_row hlist
  rw [List.length_drop, List.length_drop] at hlength
  omega

theorem nextLine_row_advances {m : Nat} {x : InputRow} (hk : k ≤ tokens.length)
    (h : nextLine tokens (row tokens m) k = .ok x k') : k + (m + 1) ≤ k' := by
  obtain ⟨first, hle, hfirst, hrow⟩ := nextLine_eq_ok hk h
  have hadvances := row_advances hfirst hrow
  omega

theorem pos_of_header {x : Nat × Nat} (hk : k ≤ tokens.length)
    (h : nextLine tokens (header tokens) k = .ok x k') : 0 < x.2 := by
  obtain ⟨first, _, hfirst, hheader⟩ := nextLine_eq_ok hk h
  exact Parse.pos_of_header (follows_header.eq_ok hfirst hheader).1

theorem length_objective {m : Nat} (hm : 0 < m) {x : Sense × List Float} (hk : k ≤ tokens.length)
    (h : nextLine tokens (senseAndObjective tokens m) k = .ok x k') : x.2.length = m := by
  obtain ⟨first, _, hfirst, hline⟩ := nextLine_eq_ok hk h
  exact Parse.length_senseAndObjective ((follows_senseAndObjective hm).eq_ok hfirst hline).1

end Positioned

/-! ## Counting the rows -/

/-- The position of a parser and how often it has started to read a row. -/
structure Place where
  position : Nat
  rowsStarted : Nat
deriving Repr, DecidableEq

abbrev Counted := EStateM ParseError Place

instance decidableEqResult {ε σ β : Type} [DecidableEq ε] [DecidableEq σ] [DecidableEq β] :
    DecidableEq (EStateM.Result ε σ β)
  | .ok x s, .ok y t => decidable_of_iff (x = y ∧ s = t) (by simp)
  | .error e s, .error e' t => decidable_of_iff (e = e' ∧ s = t) (by simp)
  | .ok _ _, .error _ _ => isFalse nofun
  | .error _ _, .ok _ _ => isFalse nofun

/-- A result without the count. -/
def withoutCount {β : Type} : EStateM.Result ParseError Place β → EStateM.Result ParseError Nat β
  | .ok x s => .ok x s.position
  | .error e s => .error e s.position

open Positioned (nextLine Matches)

namespace Counted

/-- A parser that starts no row. -/
def lift {β : Type} (q : Positioned β) : Counted β := fun s =>
  match q s.position with
  | .ok x k => .ok x { s with position := k }
  | .error e k => .error e { s with position := k }

def startRow : Counted Unit := modify fun s => { s with rowsStarted := s.rowsStarted + 1 }

section Parsers

variable (tokens : List Token)

def rows (m : Nat) : Nat → Counted (List InputRow)
  | 0 => return []
  | n + 1 => do
    startRow
    let first ← lift (nextLine tokens (Positioned.row tokens m))
    let others ← rows m n
    return first :: others

/-- Everything after a header. -/
def body (n m : Nat) : Counted Input := do
  let (sense, objective) ← lift (nextLine tokens (Positioned.senseAndObjective tokens m))
  let rows ← rows tokens m n
  lift (Positioned.endOfFile tokens)
  return { sense, objective, rows }

def input : Counted Input := do
  let (n, m) ← lift (nextLine tokens (Positioned.header tokens))
  body tokens n m

end Parsers

/-! ### The same parsers -/

section Follows

variable {β γ : Type} {tokens : List Token}

/-- The count aside, all runs match those on the tokens. -/
def Follows (tokens : List Token) (q : Counted β) (p : Parse β) : Prop :=
  ∀ s, s.position ≤ tokens.length →
    Matches tokens s.position (withoutCount (q s)) (p (tokens.drop s.position))

theorem matches_bind {q : Counted β} {p : Parse β} {g : β → Counted γ} {f : β → Parse γ} {s : Place}
    (hq : Matches tokens s.position (withoutCount (q s)) (p (tokens.drop s.position)))
    (hg : ∀ x s', q s = .ok x s' → s'.position ≤ tokens.length →
      Matches tokens s'.position (withoutCount (g x s')) (f x (tokens.drop s'.position))) :
    Matches tokens s.position (withoutCount ((q >>= g) s)) ((p >>= f) (tokens.drop s.position)) := by
  show Matches tokens s.position (withoutCount (EStateM.bind q g s)) (EStateM.bind p f _)
  unfold EStateM.bind
  generalize p (tokens.drop s.position) = r at hq ⊢
  cases hrun : q s with
  | ok x s' =>
    rw [hrun] at hq
    cases hq with
    | ok _ le le_length => exact (hg x s' hrun le_length).mono le
  | error e s' =>
    rw [hrun] at hq
    cases hq with
    | error _ le le_length => exact .error e le le_length

theorem Follows.bind {q : Counted β} {p : Parse β} {g : β → Counted γ} {f : β → Parse γ}
    (hq : Follows tokens q p) (hg : ∀ x, Follows tokens (g x) (f x)) :
    Follows tokens (q >>= g) (p >>= f) := by
  intro s hs
  exact matches_bind (hq s hs) fun x s' _ hs' => hg x s' hs'

theorem follows_pure (x : β) : Follows tokens (pure x) (pure x) :=
  fun _ hs => .ok x (Nat.le_refl _) hs

theorem Follows.le_length {q : Counted β} {p : Parse β} (hq : Follows tokens q p) {s : Place}
    (hs : s.position ≤ tokens.length) : (stateOf (q s)).position ≤ tokens.length := by
  have hle := (hq s hs).stateOf_le
  cases hrun : q s with
  | ok x s' => rwa [hrun] at hle
  | error e s' => rwa [hrun] at hle

theorem withoutCount_lift (q : Positioned β) (s : Place) :
    withoutCount (lift q s) = q s.position := by
  unfold lift
  cases q s.position with
  | ok x k => rfl
  | error e k => rfl

theorem follows_lift {q : Positioned β} {p : Parse β} (hq : Positioned.Follows tokens q p) :
    Follows tokens (lift q) p := by
  intro s hs
  rw [withoutCount_lift]
  exact hq s.position hs

theorem follows_rows (m n : Nat) : Follows tokens (rows tokens m n) (Parse.rows m n) := by
  induction n with
  | zero => exact follows_pure []
  | succ n ih =>
    rw [Parse.rows_succ]
    have hrest := (follows_lift (Positioned.follows_nextRow m)).bind fun first =>
      ih.bind fun others => follows_pure (first :: others)
    intro s hs
    exact hrest { s with rowsStarted := s.rowsStarted + 1 } hs

theorem follows_input : Follows tokens (input tokens) Parse.input := by
  rw [Parse.input_eq]
  intro s hs
  refine matches_bind (follows_lift (Positioned.follows_nextLine Positioned.follows_header) s hs) ?_
  rintro ⟨n, m⟩ s' hheader hs'
  have hm : 0 < m :=
    Positioned.pos_of_header hs ((withoutCount_lift _ s).symm.trans (congrArg withoutCount hheader))
  have hbody : Follows tokens (body tokens n m) _ :=
    (follows_lift (Positioned.follows_nextObjective hm)).bind fun y =>
      (follows_rows m n).bind fun xs => (follows_lift Positioned.follows_endOfFile).bind fun _ =>
        follows_pure (Input.mk y.1 y.2 xs)
  exact hbody s' hs'

end Follows

/-! ### The number of rounds -/

/-- From position `k` and count `c` on, a run that ends well has started and read `n` rows. One that
fails has read all rows that it started but for the last one, and has started `n` at most. -/
inductive RowsBounded {β : Type} (m n k c : Nat) (P : β → Prop) :
    EStateM.Result ParseError Place β → Prop where
  | ok {x : β} {k' : Nat} (holds : P x) (le : k + n * (m + 1) ≤ k') :
      RowsBounded m n k c P (.ok x ⟨k', c + n⟩)
  | error (e : ParseError) {k' c' : Nat} (read : Nat) (le : k + read * (m + 1) ≤ k')
      (count_le : c' ≤ c + read + 1) (count_le_rows : c' ≤ c + n) :
      RowsBounded m n k c P (.error e ⟨k', c'⟩)

section Bounds

variable {β γ : Type} {tokens : List Token} {m n k c : Nat}

/-- A parser that starts no row either fails, at a later position, or goes on from there. -/
theorem lift_bind_cases {q : Positioned β} {p : Parse β} {g : β → Counted γ}
    {R : EStateM.Result ParseError Place γ → Prop} (hq : Positioned.Follows tokens q p)
    (hk : k ≤ tokens.length) (herror : ∀ e k', k ≤ k' → R (.error e ⟨k', c⟩))
    (hok : ∀ x k', q k = .ok x k' → k ≤ k' → k' ≤ tokens.length → R (g x ⟨k', c⟩)) :
    R ((lift q >>= g) ⟨k, c⟩) := by
  have hmatches := hq k hk
  show R (EStateM.bind (lift q) g ⟨k, c⟩)
  unfold EStateM.bind lift
  dsimp only
  generalize p (tokens.drop k) = r at hmatches
  generalize q k = r' at hmatches hok ⊢
  cases hmatches with
  | ok x le le_length => exact hok x _ rfl le le_length
  | error e le le_length => exact herror e _ le

/-- A row that is read, then the others. -/
theorem RowsBounded.cons {first : InputRow} {q : Counted (List InputRow)} {k' : Nat}
    (hstep : k + (m + 1) ≤ k')
    (hq : RowsBounded m n k' (c + 1) (fun xs => xs.length = n) (q ⟨k', c + 1⟩)) :
    RowsBounded m (n + 1) k c (fun xs => xs.length = n + 1)
      ((q >>= fun others => pure (first :: others)) ⟨k', c + 1⟩) := by
  show RowsBounded m (n + 1) k c _ (EStateM.bind q _ _)
  unfold EStateM.bind
  generalize q ⟨k', c + 1⟩ = r at hq ⊢
  cases hq with
  | ok holds le =>
    rw [Nat.add_right_comm, Nat.add_assoc c]
    refine .ok (congrArg (· + 1) holds) ?_
    rw [Nat.succ_mul]
    omega
  | error e read le count_le count_le_rows =>
    refine .error e (read + 1) ?_ (by omega) (by omega)
    rw [Nat.succ_mul]
    omega

/-- A row that is refused ends the loop, one that is read moves the position on. -/
theorem rowsBounded_rows (m n c : Nat) (hk : k ≤ tokens.length) :
    RowsBounded m n k c (fun xs => xs.length = n) (rows tokens m n ⟨k, c⟩) := by
  induction n generalizing k c with
  | zero => exact .ok rfl (by omega)
  | succ n ih =>
    refine lift_bind_cases (k := k) (c := c + 1) (Positioned.follows_nextRow m) hk ?_ ?_
    · intro e k' hle
      exact .error e 0 (by omega) (Nat.le_refl _) (by omega)
    · intro first k' hrow _ hk'
      exact .cons (Positioned.nextLine_row_advances hk hrow) (ih (c + 1) hk')

theorem rowsBounded_body (n c : Nat) (hm : 0 < m) (hk : k ≤ tokens.length) :
    RowsBounded m n k c (fun x => x.numConstraints = n ∧ x.numVariables = m)
      (body tokens n m ⟨k, c⟩) := by
  refine lift_bind_cases (Positioned.follows_nextObjective hm) hk ?_ ?_
  · intro e k' hle
    exact .error e 0 (by omega) (Nat.le_succ c) (Nat.le_add_right c n)
  · rintro ⟨sense, objective⟩ k₁ hline hle₁ hk₁
    have hwidth := Positioned.length_objective hm hk hline
    have hrows := rowsBounded_rows m n c hk₁
    have hk₂ := (follows_rows m n).le_length (s := ⟨k₁, c⟩) hk₁
    show RowsBounded m n k c _ (EStateM.bind (rows tokens m n) _ _)
    unfold EStateM.bind
    dsimp only
    generalize rows tokens m n ⟨k₁, c⟩ = r at hrows hk₂ ⊢
    cases hrows with
    | error e read le count_le count_le_rows =>
      exact .error e read (by omega) count_le count_le_rows
    | @ok xs k₂ hheight le =>
      refine lift_bind_cases Positioned.follows_endOfFile hk₂ ?_ ?_
      · intro e k₃ hle₃
        exact .error e n (by omega) (Nat.le_succ _) (Nat.le_refl _)
      · intro _ k₃ _ hle₃ _
        exact .ok ⟨hheight, hwidth⟩ (by omega)

/-- The rounds that fit in as many tokens. -/
theorem RowsBounded.rowsStarted_le {P : β → Prop} {r : EStateM.Result ParseError Place β}
    {length : Nat} (h : RowsBounded m n k 0 P r) (hlength : (stateOf r).position ≤ length) :
    (stateOf r).rowsStarted ≤ n ∧ (stateOf r).rowsStarted ≤ length / (m + 1) + 1 := by
  have hdiv {read : Nat} (hread : k + read * (m + 1) ≤ (stateOf r).position) :
      read ≤ length / (m + 1) :=
    (Nat.le_div_iff_mul_le (Nat.succ_pos m)).2
      ((Nat.le_add_left _ k).trans (hread.trans hlength))
  cases h with
  | ok holds le =>
    have hn := hdiv le
    show 0 + n ≤ n ∧ 0 + n ≤ _
    omega
  | @error e k' count read le count_le count_le_rows =>
    have hread := hdiv le
    show count ≤ n ∧ count ≤ _
    omega

theorem input_of_header {x : Nat × Nat} {k' : Nat}
    (h : nextLine tokens (Positioned.header tokens) k = .ok x k') :
    input tokens ⟨k, c⟩ = body tokens x.1 x.2 ⟨k', c⟩ := by
  show EStateM.bind (lift _) _ _ = _
  simp [EStateM.bind, lift, h]

theorem input_of_no_header {e : ParseError} {k' : Nat}
    (h : nextLine tokens (Positioned.header tokens) k = .error e k') :
    input tokens ⟨k, c⟩ = .error e ⟨k', c⟩ := by
  show EStateM.bind (lift _) _ _ = _
  simp [EStateM.bind, lift, h]

end Bounds

end Counted

/-- The parsers stop within the tokens, and a row that is read takes a token for each variable and
one more. The loop over the rows is entered no more often than the header announces and, whatever it
announces, once more at most than rows fit in the tokens. A file that is read has the tokens for all
rows of its header. -/
theorem parse_within_tokens {tokens : List Token} {start : Nat} (hstart : start ≤ tokens.length) :
    (Matches tokens start (withoutCount (Counted.input tokens ⟨start, 0⟩))
        (Parse.input (tokens.drop start)) ∧
      (stateOf (Counted.input tokens ⟨start, 0⟩)).position ≤ tokens.length) ∧
    (Matches tokens start (Positioned.reference tokens start)
        (Parse.reference (tokens.drop start)) ∧
      stateOf (Positioned.reference tokens start) ≤ tokens.length) ∧
    (∀ m k k' x, k ≤ tokens.length → Positioned.row tokens m k = .ok x k' → k + (m + 1) ≤ k') ∧
    (∀ e k, nextLine tokens (Positioned.header tokens) start = .error e k →
      Counted.input tokens ⟨start, 0⟩ = .error e ⟨k, 0⟩) ∧
    ∀ n m k, nextLine tokens (Positioned.header tokens) start = .ok (n, m) k →
      (stateOf (Counted.input tokens ⟨start, 0⟩)).rowsStarted ≤ n ∧
      (stateOf (Counted.input tokens ⟨start, 0⟩)).rowsStarted ≤ tokens.length / (m + 1) + 1 ∧
      ∀ x s, Counted.input tokens ⟨start, 0⟩ = .ok x s →
        x.numConstraints = n ∧ x.numVariables = m ∧ s.rowsStarted = n ∧
        n * (m + 1) ≤ tokens.length := by
  have hinput : (stateOf (Counted.input tokens ⟨start, 0⟩)).position ≤ tokens.length :=
    Counted.follows_input.le_length hstart
  refine ⟨⟨Counted.follows_input ⟨start, 0⟩ hstart, hinput⟩,
    ⟨Positioned.follows_reference start hstart,
      (Positioned.follows_reference start hstart).stateOf_le⟩,
    fun m k k' x => Positioned.row_advances, fun e k => Counted.input_of_no_header, ?_⟩
  intro n m k hheader
  obtain ⟨first, _, hfirst, hok⟩ := Positioned.nextLine_eq_ok hstart hheader
  obtain ⟨_, _, hk⟩ := Positioned.follows_header.eq_ok hfirst hok
  have hm : 0 < m := Positioned.pos_of_header hstart hheader
  have hrun := Counted.rowsBounded_body n 0 hm hk
  rw [Counted.input_of_header hheader] at hinput ⊢
  obtain ⟨hrows, htokens⟩ := hrun.rowsStarted_le hinput
  refine ⟨hrows, htokens, ?_⟩
  intro x s hx
  rw [hx] at hrun hinput
  cases hrun with
  | ok holds le =>
    exact ⟨holds.1, holds.2, Nat.zero_add n, (Nat.le_add_left _ k).trans (le.trans hinput)⟩

/-- Eleven tokens, and a header of four billion rows after the first two. -/
theorem parse_within_tokens_huge_count :
    let tokens := tokenize "# rows\n4000000000 1\n1\n1 1\n"
    2 ≤ tokens.length ∧
    nextLine tokens (Positioned.header tokens) 2 = .ok (4000000000, 1) 5 ∧
    (stateOf (Counted.input tokens ⟨2, 0⟩)).rowsStarted ≤ 6 ∧
    ∀ x s, Counted.input tokens ⟨2, 0⟩ ≠ .ok x s := by
  intro tokens
  have hlength : tokens.length = 11 := by decide +kernel
  have hstart : 2 ≤ tokens.length := by
    rw [hlength]
    decide
  have hheader : nextLine tokens (Positioned.header tokens) 2 = .ok (4000000000, 1) 5 := by
    decide +kernel
  obtain ⟨_, _, _, _, hrows⟩ := parse_within_tokens hstart
  obtain ⟨_, hrounds, hok⟩ := hrows 4000000000 1 5 hheader
  rw [hlength] at hrounds hok
  refine ⟨hstart, hheader, hrounds, ?_⟩
  intro x s hx
  obtain ⟨_, _, _, htokens⟩ := hok x s hx
  exact absurd htokens (by decide)

example :
    stateOf (Counted.input (tokenize "# rows\n4000000000 1\n1\n1 1\n") ⟨2, 0⟩) = ⟨10, 2⟩ := by
  decide +kernel

end PenaltySimplex.Format
