import PenaltySimplex.Capacity
import PenaltySimplex.Character
import PenaltySimplex.Format.Token

/-!
# PenaltySimplex.Format.Lexer

Splitting a text into tokens. Spaces, tabs and carriage returns separate tokens; a newline is a
token of its own, and a comment runs from `#` to the end of its line.

* `lexeme` takes the first lexeme off a text that starts with no blank. Nothing is lost
  (`lexeme_append`) and something is taken (`lexeme_ne_nil`).
* `Cursor.next` is the next token and the place after it; at the end of the text it is the
  end-of-file token, again and again.
* `tokenize` lists the tokens up to and including the end-of-file token.
-/

namespace PenaltySimplex.Format

open Character

/-- A lexeme's kind and characters, and the text after it. -/
structure Lexeme where
  kind : TokenKind
  text : List Char
  rest : List Char
deriving Repr, DecidableEq

def isSeparator (c : Char) : Bool :=
  c == ' ' || c == '\t' || c == '\r'

def isSign (c : Char) : Bool :=
  c == '-' || c == '+'

def isWordChar (c : Char) : Bool :=
  isAlphanumeric c || c == '_'

def spanSign : List Char → List Char × List Char
  | c :: cs => if isSign c then ([c], cs) else ([], c :: cs)
  | [] => ([], [])

def spanDigits (cs : List Char) : List Char × List Char :=
  (cs.takeWhile Char.isDigit, cs.dropWhile Char.isDigit)

/-- A point and digits, if there is a point. -/
def spanPlaces : List Char → List Char × List Char
  | c :: cs => if c == '.' then ('.' :: (spanDigits cs).1, (spanDigits cs).2) else ([], c :: cs)
  | [] => ([], [])

/-- An exponent mark, a sign and digits, if there is a mark; sign and digits may be missing. -/
def spanExponent : List Char → List Char × List Char
  | c :: cs =>
    if c == 'e' || c == 'E' then
      let sign := spanSign cs
      let digits := spanDigits sign.2
      (c :: (sign.1 ++ digits.1), digits.2)
    else ([], c :: cs)
  | [] => ([], [])

/-- Sign, digits, places and exponent, each of which may be missing. Whether that makes a number
is decided when its value is asked for. -/
def spanNumber (cs : List Char) : List Char × List Char :=
  let sign := spanSign cs
  let whole := spanDigits sign.2
  let places := spanPlaces whole.2
  let exponent := spanExponent places.2
  (sign.1 ++ whole.1 ++ places.1 ++ exponent.1, exponent.2)

def numberLexeme (cs : List Char) : Lexeme :=
  let n := spanNumber cs
  ⟨.number, n.1, n.2⟩

def wordKind (word : String) : TokenKind :=
  if word = "min" ∨ word = "minimize" then .min
  else if word = "max" ∨ word = "maximize" then .max
  else .ident

def wordLexeme (c : Char) (cs : List Char) : Lexeme :=
  let word := c :: cs.takeWhile isWordChar
  ⟨wordKind (String.ofList word), word, cs.dropWhile isWordChar⟩

/-- A comparison: `<=`, `>=`, `=` or `==`. A lone `<` or `>` is an error. -/
def comparisonLexeme (c : Char) : List Char → Lexeme
  | '=' :: cs => ⟨if c == '<' then .le else if c == '>' then .ge else .eq, [c, '='], cs⟩
  | cs => ⟨if c == '=' then .eq else .error, [c], cs⟩

def startsNumber : List Char → Bool
  | [] => false
  | c :: _ => c.isDigit || c == '.'

def lexeme (c : Char) (cs : List Char) : Lexeme :=
  if c == '\n' then ⟨.newline, [c], cs⟩
  else if c == '#' then
    ⟨.comment, c :: cs.takeWhile (· != '\n'), cs.dropWhile (· != '\n')⟩
  else if c == '<' || c == '>' || c == '=' then comparisonLexeme c cs
  else if isSign c || c == '.' then
    if startsNumber cs then numberLexeme (c :: cs) else ⟨.error, [c], cs⟩
  else if c.isDigit then numberLexeme (c :: cs)
  else if isAlphabetic c || c == '_' then wordLexeme c cs
  else ⟨.error, [c], cs⟩

/-! ## Lexemes cut the text -/

theorem spanDigits_append (cs : List Char) : (spanDigits cs).1 ++ (spanDigits cs).2 = cs := by
  simp [spanDigits]

theorem spanSign_append (cs : List Char) : (spanSign cs).1 ++ (spanSign cs).2 = cs := by
  unfold spanSign
  split
  · split <;> rfl
  · rfl

theorem spanPlaces_append (cs : List Char) : (spanPlaces cs).1 ++ (spanPlaces cs).2 = cs := by
  unfold spanPlaces
  split
  · split
    · simp_all [spanDigits_append]
    · rfl
  · rfl

theorem spanExponent_append (cs : List Char) :
    (spanExponent cs).1 ++ (spanExponent cs).2 = cs := by
  unfold spanExponent
  split
  · split
    · simp [spanDigits_append, spanSign_append]
    · rfl
  · rfl

theorem spanNumber_append (cs : List Char) : (spanNumber cs).1 ++ (spanNumber cs).2 = cs := by
  simp [spanNumber, spanExponent_append, spanPlaces_append, spanDigits_append, spanSign_append]

theorem lexeme_append (c : Char) (cs : List Char) :
    (lexeme c cs).text ++ (lexeme c cs).rest = c :: cs := by
  unfold lexeme
  repeat' split
  all_goals try simp [numberLexeme, wordLexeme, spanNumber_append]
  unfold comparisonLexeme
  split <;> rfl

theorem spanNumber_ne_nil {c : Char} {cs : List Char}
    (h : isSign c = true ∨ c = '.' ∨ c.isDigit = true) : (spanNumber (c :: cs)).1 ≠ [] := by
  by_cases hs : isSign c = true
  · simp [spanNumber, spanSign, hs]
  · by_cases hd : c.isDigit = true
    · simp [spanNumber, spanSign, hs, spanDigits, hd]
    · obtain rfl : c = '.' := by simp_all
      simp [spanNumber, spanSign, hs, spanDigits, spanPlaces]

theorem lexeme_ne_nil (c : Char) (cs : List Char) : (lexeme c cs).text ≠ [] := by
  unfold lexeme
  repeat' split
  all_goals try simp [wordLexeme]
  · unfold comparisonLexeme
    split <;> simp
  · exact spanNumber_ne_nil (by grind)
  · exact spanNumber_ne_nil (by grind)

/-! ## Tokens -/

/-- A place in a text: what is left, and where that starts. -/
structure Cursor where
  rest : List Char
  offset : Nat
  line : Nat
deriving Repr, DecidableEq

/-- Length in UTF-8 bytes. -/
def byteLength : List Char → Nat
  | [] => 0
  | c :: cs => c.utf8Size + byteLength cs

namespace Cursor

def ofString (source : String) : Cursor := ⟨source.toList, 0, 1⟩

/-- The place after the separators at a place. -/
def skipSeparators (cur : Cursor) : Cursor where
  rest := cur.rest.dropWhile isSeparator
  offset := cur.offset + byteLength (cur.rest.takeWhile isSeparator)
  line := cur.line

def take (cur : Cursor) (l : Lexeme) : Token × Cursor :=
  let stop := cur.offset + byteLength l.text
  (⟨l.kind, ⟨cur.offset, stop⟩, cur.line, String.ofList l.text⟩,
    ⟨l.rest, stop, if l.kind = .newline then cur.line + 1 else cur.line⟩)

def next (cur : Cursor) : Token × Cursor :=
  let here := cur.skipSeparators
  match here.rest with
  | [] => (⟨.eof, ⟨here.offset, here.offset⟩, here.line, ""⟩, here)
  | c :: cs => here.take (lexeme c cs)

/-- The tokens of the first `n` calls of `next`. -/
def nextTokens : Nat → Cursor → List Token
  | 0, _ => []
  | n + 1, cur => cur.next.1 :: cur.next.2.nextTokens n

/-- The tokens of the first `n` calls of `next`, if a list has room for them. -/
def nextTokens? (n : Nat) (cur : Cursor) : Option (List Token) :=
  if hasRoom n recordBytes then some (cur.nextTokens n) else none

theorem length_rest_lexeme (c : Char) (cs : List Char) :
    (lexeme c cs).rest.length < (c :: cs).length := by
  have happ := congrArg List.length (lexeme_append c cs)
  have hne := List.length_pos_iff.2 (lexeme_ne_nil c cs)
  simp only [List.length_append] at happ
  omega

theorem kind_comparisonLexeme_ne_eof (c : Char) (cs : List Char) :
    (comparisonLexeme c cs).kind ≠ .eof := by
  unfold comparisonLexeme
  split
  · simp only
    split
    · simp
    · split <;> simp
  · simp only
    split <;> simp

theorem kind_lexeme_ne_eof (c : Char) (cs : List Char) : (lexeme c cs).kind ≠ .eof := by
  unfold lexeme
  repeat' split
  all_goals try simp [numberLexeme, wordLexeme, wordKind]
  · exact kind_comparisonLexeme_ne_eof c cs
  · repeat' split
    all_goals simp

/-- Every token but the last takes characters. -/
theorem next_shorter {cur : Cursor} (h : cur.next.1.kind ≠ .eof) :
    cur.next.2.rest.length < cur.rest.length := by
  have hskip : cur.skipSeparators.rest.length ≤ cur.rest.length :=
    (List.dropWhile_suffix isSeparator).length_le
  cases hrest : cur.skipSeparators.rest with
  | nil => simp [next, hrest] at h
  | cons c cs =>
    have := length_rest_lexeme c cs
    simp only [next, hrest, take] at hskip ⊢
    omega

def tokens (cur : Cursor) : List Token :=
  if _h : cur.next.1.kind = .eof then [cur.next.1]
  else cur.next.1 :: cur.next.2.tokens
termination_by cur.rest.length
decreasing_by exact next_shorter _h

end Cursor

def tokenize (source : String) : List Token :=
  (Cursor.ofString source).tokens

end PenaltySimplex.Format
