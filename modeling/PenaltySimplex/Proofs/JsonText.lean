import Mathlib
import PenaltySimplex.Json.Printer
import PenaltySimplex.Json.Reader

/-!
# PenaltySimplex.Proofs.JsonText

Reading a JSON value from what is printed of it (`read_compact`).

* `WellFormed`: the literals of a value are JSON numbers, and its strings and keys name characters.
  Any other value has no text of its own.
* `Escapes`: how a character is written in a string, and that it is read back
  (`Escapes.readUnits`).
* `extends_readNumber`: a number ends where nothing that could go on with it follows.
* `readValue_compact`: the printed value is read off the front of a text, whatever follows, by
  induction on the value. The depth that reading recurses on is used up no faster than the text.
-/

namespace PenaltySimplex.Json

/-! ## Strings -/

/-- What an escape is read as. -/
def unitOf (c : Char) : CodeUnit :=
  if c.toNat < 0x20 ∧ c ≠ '\x08' ∧ c ≠ '\x0c' ∧ c ≠ '\n' ∧ c ≠ '\r' ∧ c ≠ '\t' then
    .unit c.toNat
  else .char c

theorem hex4_eq : ∀ n < 0x20,
    hex4 n = ['0', '0', Nat.digitChar (n / 16), Nat.digitChar (n % 16)] ∧
      hexNumber? '0' '0' (Nat.digitChar (n / 16)) (Nat.digitChar (n % 16)) = some n := by
  decide

/-- A letter after a backslash, four hexadecimal digits after one, or the character itself. -/
inductive Escapes (c : Char) : List Char → CodeUnit → Prop where
  | letter (e : Char) (hu : e ≠ 'u') (he : unescape? e = some c) : Escapes c ['\\', e] (.char c)
  | control (hc : c.toNat < 0x20) : Escapes c ('\\' :: 'u' :: hex4 c.toNat) (.unit c.toNat)
  | plain (hquote : c ≠ '"') (hslash : c ≠ '\\') (hc : ¬ c.toNat < 0x20) : Escapes c [c] (.char c)

theorem escapes_escape (c : Char) : Escapes c (escape c) (unitOf c) := by
  by_cases hletter : c ∈ ['"', '\\', '\x08', '\x0c', '\n', '\r', '\t']
  · simp only [List.mem_cons, List.not_mem_nil, or_false] at hletter
    obtain rfl | rfl | rfl | rfl | rfl | rfl | rfl := hletter <;>
      exact .letter _ (by decide) rfl
  · simp only [List.mem_cons, List.not_mem_nil, or_false, not_or] at hletter
    obtain ⟨hquote, hslash, h8, hc, hn, hr, ht⟩ := hletter
    unfold escape unitOf
    rw [if_neg hquote, if_neg hslash, if_neg h8, if_neg hc, if_neg hn, if_neg hr, if_neg ht]
    by_cases hcontrol : c.toNat < 0x20
    · rw [if_pos hcontrol, if_pos ⟨hcontrol, h8, hc, hn, hr, ht⟩]
      exact .control hcontrol
    · rw [if_neg hcontrol, if_neg fun h => hcontrol h.1]
      exact .plain hquote hslash hcontrol

/-- An escape is read back as its code unit. -/
theorem Escapes.readUnits {c : Char} {text : List Char} {unit : CodeUnit} (h : Escapes c text unit)
    (cs : List Char) :
    readUnits (text ++ cs) = (readUnits cs).map fun (units, rest) => (unit :: units, rest) := by
  cases h with
  | letter e hu he =>
    have hletter : Json.readUnits ('\\' :: e :: cs) = _ :=
      readUnits.eq_4 e cs fun _ _ _ _ _ h => absurd h hu
    rw [List.cons_append, List.cons_append, List.nil_append, hletter, he]
    cases Json.readUnits cs <;> rfl
  | control hc =>
    obtain ⟨hdigits, hvalue⟩ := hex4_eq c.toNat hc
    rw [hdigits]
    simp only [List.cons_append, List.nil_append, Json.readUnits, hvalue]
    cases Json.readUnits cs <;> rfl
  | plain hquote hslash hc =>
    have hplain : Json.readUnits (c :: cs) = _ :=
      readUnits.eq_5 c cs hquote (fun _ _ _ _ _ h => absurd h hslash) fun _ _ h => absurd h hslash
    rw [List.cons_append, List.nil_append, hplain, if_neg hc]
    cases Json.readUnits cs <;> rfl

theorem Escapes.decodeUnits {c : Char} {text : List Char} {unit : CodeUnit}
    (h : Escapes c text unit) (units : List CodeUnit) :
    decodeUnits (unit :: units) = (decodeUnits units).map (c :: ·) := by
  cases h with
  | letter e hu he => rfl
  | control hc =>
    have hlow : c.toNat < 0xD800 ∨ 0xDFFF < c.toNat := .inl (by omega)
    rw [decodeUnits.eq_def]
    simp only [if_pos hlow, Char.ofNat_toNat]
  | plain hquote hslash hc => rfl

theorem readUnits_quoted (cs rest : List Char) :
    readUnits (cs.flatMap escape ++ '"' :: rest) = some (cs.map unitOf, rest) := by
  induction cs with
  | nil => rfl
  | cons c cs ih =>
    rw [List.flatMap_cons, List.append_assoc, (escapes_escape c).readUnits, ih]
    rfl

theorem decodeUnits_map_unitOf (cs : List Char) : decodeUnits (cs.map unitOf) = some cs := by
  induction cs with
  | nil => rfl
  | cons c cs ih =>
    rw [List.map_cons, (escapes_escape c).decodeUnits, ih]
    rfl

/-- A quoted string is read back, whatever follows it. -/
theorem readString_quoted (s : String) (rest : List Char) :
    readString (s.toList.flatMap escape ++ '"' :: rest) = some (some s, rest) := by
  simp only [readString, readUnits_quoted, Option.map_some, decodeUnits_map_unitOf,
    String.ofList_toList]

/-! ## Numbers -/

/-- Nothing that could go on with a number comes first. -/
def EndsNumber (rest : List Char) : Prop :=
  ∀ c ∈ rest.head?, c.isDigit = false ∧ c ≠ '.' ∧ c ≠ 'e' ∧ c ≠ 'E'

/-- What a reader takes off a text, it takes off a longer one that goes on with no number. -/
def Extends (reader : List Char → Option (List Char × List Char)) : Prop :=
  ∀ cs ds r rest, reader cs = some (ds, r) → EndsNumber rest →
    reader (cs ++ rest) = some (ds, r ++ rest)

theorem EndsNumber.takeWhile {rest : List Char} (h : EndsNumber rest) :
    rest.takeWhile Char.isDigit = [] ∧ rest.dropWhile Char.isDigit = rest := by
  cases rest with
  | nil => exact ⟨rfl, rfl⟩
  | cons c rest => simp [(h c rfl).1]

theorem extends_readDigits : Extends readDigits := by
  intro cs ds r rest h hrest
  obtain ⟨htake, hdrop⟩ := hrest.takeWhile
  have hdigits : (cs ++ rest).takeWhile Char.isDigit = cs.takeWhile Char.isDigit := by
    rw [List.takeWhile_append]
    split
    · rename_i hall
      rw [htake, List.append_nil, (List.takeWhile_prefix _).eq_of_length hall]
    · rfl
  have hafter : (cs ++ rest).dropWhile Char.isDigit = cs.dropWhile Char.isDigit ++ rest := by
    rw [List.dropWhile_append]
    split
    · rename_i hnone
      rw [hdrop, List.isEmpty_iff.1 hnone, List.nil_append]
    · rfl
  simp only [readDigits, hdigits, hafter] at h ⊢
  split at h
  · cases h
  · rename_i hsome
    cases h
    rw [if_neg hsome]

theorem extends_readWhole : Extends readWhole := by
  intro cs ds r rest h hrest
  cases cs with
  | nil => cases h
  | cons c cs =>
    by_cases hzero : c = '0'
    · subst hzero
      have hhead : (cs ++ rest).head?.any Char.isDigit = cs.head?.any Char.isDigit := by
        cases cs with
        | cons c cs => rfl
        | nil =>
          cases rest with
          | nil => rfl
          | cons c rest => exact (hrest c rfl).1
      rw [readWhole] at h
      rw [List.cons_append, readWhole, hhead]
      split at h
      · cases h
      · rename_i hsome
        cases h
        rw [if_neg hsome]
    · rw [readWhole.eq_2 _ fun _ h => hzero (List.cons.inj h).1] at h
      rw [List.cons_append, readWhole.eq_2 _ fun _ h => hzero (List.cons.inj h).1]
      exact extends_readDigits _ _ _ _ h hrest

theorem extends_readPlaces : Extends readPlaces := by
  intro cs ds r rest h hrest
  cases cs with
  | nil =>
    cases h
    rw [List.nil_append, readPlaces.eq_2]
    intro _ hpoint
    rw [hpoint] at hrest
    exact (hrest '.' rfl).2.1 rfl
  | cons c cs =>
    by_cases hpoint : c = '.'
    · subst hpoint
      rw [readPlaces] at h
      obtain ⟨⟨places, after⟩, hdigits, heq⟩ := Option.map_eq_some_iff.1 h
      cases heq
      rw [List.cons_append, readPlaces, extends_readDigits _ _ _ _ hdigits hrest]
      rfl
    · rw [readPlaces.eq_2 _ fun _ h => hpoint (List.cons.inj h).1] at h
      cases h
      rw [List.cons_append, readPlaces.eq_2 _ fun _ h => hpoint (List.cons.inj h).1]

theorem readExponent_of_no_mark {c : Char} (h : ¬ (c = 'e' ∨ c = 'E')) (cs : List Char) :
    readExponent (c :: cs) = some ([], c :: cs) := by
  rw [readExponent.eq_def]
  exact if_neg h

theorem extends_readExponent : Extends readExponent := by
  intro cs ds r rest h hrest
  match cs with
  | [] =>
    cases h
    cases rest with
    | nil => rfl
    | cons c rest => exact readExponent_of_no_mark (not_or.2 (hrest c rfl).2.2) rest
  | c :: cs =>
    by_cases hmark : c = 'e' ∨ c = 'E'
    · match cs with
      | [] =>
        rw [readExponent, if_pos hmark] at h
        cases h
      | s :: cs =>
        rw [readExponent, if_pos hmark] at h
        rw [List.cons_append, List.cons_append, readExponent, if_pos hmark]
        split at h
        · rename_i hsign
          obtain ⟨⟨digits, after⟩, hdigits, heq⟩ := Option.map_eq_some_iff.1 h
          cases heq
          rw [if_pos hsign, extends_readDigits _ _ _ _ hdigits hrest]
          rfl
        · rename_i hsign
          obtain ⟨⟨digits, after⟩, hdigits, heq⟩ := Option.map_eq_some_iff.1 h
          cases heq
          rw [if_neg hsign, ← List.cons_append, extends_readDigits _ _ _ _ hdigits hrest]
          rfl
    · rw [readExponent_of_no_mark hmark] at h
      cases h
      exact readExponent_of_no_mark hmark _

theorem extends_readUnsignedNumber : Extends readUnsignedNumber := by
  intro cs ds r rest h hrest
  obtain ⟨⟨whole, cs₁⟩, hwhole, h⟩ := Option.bind_eq_some_iff.1 h
  obtain ⟨⟨places, cs₂⟩, hplaces, h⟩ := Option.bind_eq_some_iff.1 h
  obtain ⟨⟨exponent, cs₃⟩, hexponent, h⟩ := Option.bind_eq_some_iff.1 h
  cases h
  rw [readUnsignedNumber, extends_readWhole _ _ _ _ hwhole hrest]
  simp [extends_readPlaces _ _ _ _ hplaces hrest, extends_readExponent _ _ _ _ hexponent hrest]

/-- A number ends where nothing that could go on with it follows. -/
theorem extends_readNumber : Extends readNumber := by
  intro cs ds r rest h hrest
  cases cs with
  | nil => cases h
  | cons c cs =>
    by_cases hminus : c = '-'
    · subst hminus
      rw [readNumber] at h
      obtain ⟨⟨digits, after⟩, hdigits, heq⟩ := Option.map_eq_some_iff.1 h
      cases heq
      rw [List.cons_append, readNumber, extends_readUnsignedNumber _ _ _ _ hdigits hrest]
      rfl
    · rw [readNumber.eq_2 _ fun _ h => hminus (List.cons.inj h).1] at h
      rw [List.cons_append, readNumber.eq_2 _ fun _ h => hminus (List.cons.inj h).1]
      exact extends_readUnsignedNumber _ _ _ _ h hrest

/-! ## Values -/

mutual

/-- The literals are JSON numbers, and the strings and keys name characters. -/
def WellFormed : Json → Prop
  | .null => True
  | .bool _ => True
  | .number literal => readNumber literal.toList = some (literal.toList, [])
  | .text s => s.isSome
  | .array items => WellFormedItems items
  | .object members => WellFormedMembers members

def WellFormedItems : List Json → Prop
  | [] => True
  | item :: rest => WellFormed item ∧ WellFormedItems rest

def WellFormedMembers : List (Option String × Json) → Prop
  | [] => True
  | (key, value) :: rest => key.isSome ∧ WellFormed value ∧ WellFormedMembers rest

end

theorem endsNumber_cons {c : Char} (h : c ∈ [',', ']', '\x7d']) (rest : List Char) :
    EndsNumber (c :: rest) := by
  intro c' hc'
  cases hc'
  simp only [List.mem_cons, List.not_mem_nil, or_false] at h
  obtain rfl | rfl | rfl := h <;> decide

theorem skipSpace_cons {c : Char} (h : isSpace c = false) (cs : List Char) :
    skipSpace (c :: cs) = c :: cs := by
  rw [skipSpace, List.dropWhile_cons_of_neg (by simp [h])]

/-- A number starts with a digit or a minus sign. -/
theorem head_of_readNumber {cs ds r : List Char} (h : readNumber cs = some (ds, r)) :
    ∃ c cs', cs = c :: cs' ∧ (c = '-' ∨ c.isDigit = true) := by
  cases cs with
  | nil => cases h
  | cons c cs =>
    refine ⟨c, cs, rfl, ?_⟩
    by_cases hminus : c = '-'
    · exact .inl hminus
    · rw [readNumber.eq_2 _ fun _ h => hminus (List.cons.inj h).1] at h
      obtain ⟨⟨whole, r'⟩, hwhole, _⟩ := Option.bind_eq_some_iff.1 h
      refine .inr ?_
      by_contra hdigit
      have hzero : c ≠ '0' := by
        rintro rfl
        exact hdigit rfl
      rw [readWhole.eq_2 _ fun _ h => hzero (List.cons.inj h).1, readDigits,
        List.takeWhile_cons_of_neg hdigit] at hwhole
      cases hwhole

/-- A character that a number can start with. -/
theorem ne_of_starts {c x : Char} (hc : c = '-' ∨ c.isDigit = true) (hx : x.isDigit = false)
    (hminus : x ≠ '-') : c ≠ x := by
  rintro rfl
  rw [hx] at hc
  exact hc.elim hminus Bool.false_ne_true

theorem isSpace_of_starts {c : Char} (hc : c = '-' ∨ c.isDigit = true) : isSpace c = false := by
  simp [isSpace, ne_of_starts hc (x := ' ') (by decide) (by decide),
    ne_of_starts hc (x := '\n') (by decide) (by decide),
    ne_of_starts hc (x := '\t') (by decide) (by decide),
    ne_of_starts hc (x := '\r') (by decide) (by decide)]

theorem readValue_number {cs ds r : List Char} (h : readNumber cs = some (ds, r)) (depth : Nat) :
    readValue (depth + 1) cs = some (.number (String.ofList ds), r) := by
  obtain ⟨c, cs, rfl, hc⟩ := head_of_readNumber h
  rw [readValue, skipSpace_cons (isSpace_of_starts hc)]
  split
  case h_7 =>
    rw [h]
    rfl
  all_goals
    rename_i heq
    exact absurd (List.cons.inj heq).1 (ne_of_starts hc (by decide) (by decide))

/-- What is printed of a value starts with a character of its own. -/
theorem exists_head_compactChars {v : Json} (hv : WellFormed v) :
    ∃ c cs, compactChars v = c :: cs ∧ isSpace c = false ∧ c ≠ ']' := by
  cases v with
  | null => exact ⟨'n', _, by rw [compactChars]; rfl, by decide, by decide⟩
  | bool b =>
    cases b with
    | false => exact ⟨'f', _, by rw [compactChars]; rfl, by decide, by decide⟩
    | true => exact ⟨'t', _, by rw [compactChars]; rfl, by decide, by decide⟩
  | number literal =>
    rw [WellFormed] at hv
    obtain ⟨c, cs, hcs, hc⟩ := head_of_readNumber hv
    rw [compactChars]
    exact ⟨c, cs, hcs, isSpace_of_starts hc, ne_of_starts hc (by decide) (by decide)⟩
  | text s => exact ⟨'"', _, by rw [compactChars, quoted]; rfl, by decide, by decide⟩
  | array items => exact ⟨'[', _, by rw [compactChars]; rfl, by decide, by decide⟩
  | object members => exact ⟨'\x7b', _, by rw [compactChars]; rfl, by decide, by decide⟩

theorem exists_head_compactItems {item : Json} {items : List Json}
    (h : WellFormedItems (item :: items)) :
    ∃ c cs, compactItems (item :: items) = c :: cs ∧ isSpace c = false ∧ c ≠ ']' := by
  rw [WellFormedItems] at h
  obtain ⟨c, cs, hcs, hspace, hbracket⟩ := exists_head_compactChars h.1
  rw [compactItems, hcs]
  exact ⟨c, _, rfl, hspace, hbracket⟩

theorem quoted_some (s : String) : quoted (some s) = '"' :: (s.toList.flatMap escape ++ ['"']) :=
  rfl

theorem readValue_items {c : Char} (hspace : isSpace c = false) (hc : c ≠ ']') (depth : Nat)
    (cs : List Char) :
    readValue (depth + 1) ('[' :: c :: cs) =
      (readItems depth (c :: cs)).map fun (items, rest) => (.array items, rest) := by
  simp only [readValue, skipSpace_cons (c := '[') rfl, skipSpace_cons hspace]
  split
  · rename_i heq
    exact absurd (List.cons.inj heq).1 hc
  · rfl

theorem readValue_members (depth : Nat) (cs : List Char) :
    readValue (depth + 1) ('\x7b' :: '"' :: cs) =
      (readMembers depth ('"' :: cs)).map fun (members, rest) => (.object members, rest) := by
  simp only [readValue, skipSpace_cons (c := '\x7b') rfl, skipSpace_cons (c := '"') rfl]
  split
  · rename_i heq
    exact absurd (List.cons.inj heq).1 (by decide)
  · rfl

mutual

/-- A printed value is read off the front of a text. -/
theorem readValue_compact (v : Json) (hv : WellFormed v) (depth : Nat) (rest : List Char)
    (hdepth : (compactChars v).length ≤ depth) (hrest : EndsNumber rest) :
    readValue depth (compactChars v ++ rest) = some (v, rest) := by
  obtain ⟨depth, rfl⟩ : ∃ d, depth = d + 1 := by
    obtain ⟨c, cs, hcs, _⟩ := exists_head_compactChars hv
    rw [hcs, List.length_cons] at hdepth
    exact ⟨depth - 1, by omega⟩
  match v with
  | .null => rfl
  | .bool false => rfl
  | .bool true => rfl
  | .number literal =>
    rw [WellFormed] at hv
    rw [compactChars, readValue_number (extends_readNumber _ _ _ rest hv hrest),
      String.ofList_toList, List.nil_append]
  | .text none =>
    rw [WellFormed] at hv
    cases hv
  | .text (some s) =>
    have hstring := readString_quoted s rest
    rw [compactChars, quoted_some]
    simp [readValue, skipSpace_cons (c := '"') rfl, hstring]
  | .array [] => simp [compactChars, compactItems, readValue, skipSpace_cons (c := '[') rfl,
      skipSpace_cons (c := ']') rfl]
  | .array (item :: items) =>
    rw [WellFormed] at hv
    obtain ⟨c, cs, hcs, hspace, hbracket⟩ := exists_head_compactItems hv
    have hitems := readItems_compact (item :: items) (by simp) hv depth rest
      (by simp [compactChars] at hdepth; omega)
    rw [hcs, List.cons_append] at hitems
    simp [compactChars, hcs, readValue_items hspace hbracket, hitems]
  | .object [] => simp [compactChars, compactMembers, readValue, skipSpace_cons (c := '\x7b') rfl,
      skipSpace_cons (c := '\x7d') rfl]
  | .object ((key, value) :: members) =>
    rw [WellFormed] at hv
    have hmembers := readMembers_compact ((key, value) :: members) (by simp) hv depth rest
      (by simp [compactChars] at hdepth; omega)
    have hquote : ∃ cs, compactMembers ((key, value) :: members) = '"' :: cs := by
      rw [compactMembers, quoted]
      exact ⟨_, rfl⟩
    obtain ⟨cs, hcs⟩ := hquote
    rw [hcs, List.cons_append] at hmembers
    simp [compactChars, hcs, readValue_members, hmembers]

/-- Printed items are read up to the closing bracket. -/
theorem readItems_compact (items : List Json) (hne : items ≠ []) (hitems : WellFormedItems items)
    (depth : Nat) (rest : List Char) (hdepth : (compactItems items).length + 1 ≤ depth) :
    readItems depth (compactItems items ++ ']' :: rest) = some (items, rest) := by
  match items, depth with
  | [], _ => exact absurd rfl hne
  | _, 0 => omega
  | item :: items, depth + 1 =>
    rw [WellFormedItems] at hitems
    rw [compactItems, List.length_append] at hdepth
    rw [compactItems, List.append_assoc, readItems]
    match items with
    | [] =>
      have hitem := readValue_compact item hitems.1 depth (']' :: rest)
        (by simp at hdepth; omega) (endsNumber_cons (by simp) rest)
      simp [hitem, skipSpace_cons (c := ']') rfl]
    | next :: items =>
      have hitem := readValue_compact item hitems.1 depth
        (',' :: (compactItems (next :: items) ++ ']' :: rest)) (by omega)
        (endsNumber_cons (by simp) _)
      have hnext := readItems_compact (next :: items) (by simp) hitems.2 depth rest
        (by simp at hdepth; omega)
      simp [hitem, hnext, skipSpace_cons (c := ',') rfl]

/-- Printed members are read up to the closing brace. -/
theorem readMembers_compact (members : List (Option String × Json)) (hne : members ≠ [])
    (hmembers : WellFormedMembers members) (depth : Nat) (rest : List Char)
    (hdepth : (compactMembers members).length + 1 ≤ depth) :
    readMembers depth (compactMembers members ++ '\x7d' :: rest) = some (members, rest) := by
  match members, depth with
  | [], _ => exact absurd rfl hne
  | _, 0 => omega
  | (none, value) :: members, depth + 1 =>
    rw [WellFormedMembers] at hmembers
    cases hmembers.1
  | (some key, value) :: members, depth + 1 =>
    rw [WellFormedMembers] at hmembers
    rw [compactMembers, quoted_some] at hdepth ⊢
    match members with
    | [] =>
      have hvalue := readValue_compact value hmembers.2.1 depth ('\x7d' :: rest)
        (by simp at hdepth; omega) (endsNumber_cons (by simp) rest)
      have hkey := readString_quoted key (':' :: (compactChars value ++ '\x7d' :: rest))
      simp [readMembers, hkey, hvalue, skipSpace_cons (c := '"') rfl,
        skipSpace_cons (c := ':') rfl, skipSpace_cons (c := '\x7d') rfl]
    | next :: members =>
      have hvalue := readValue_compact value hmembers.2.1 depth
        (',' :: (compactMembers (next :: members) ++ '\x7d' :: rest))
        (by simp at hdepth; omega) (endsNumber_cons (by simp) _)
      have hkey := readString_quoted key
        (':' :: (compactChars value ++ ',' :: (compactMembers (next :: members) ++ '\x7d' :: rest)))
      have hnext := readMembers_compact (next :: members) (by simp) hmembers.2.2 depth rest
        (by simp at hdepth; omega)
      simp [readMembers, hkey, hvalue, hnext, skipSpace_cons (c := '"') rfl,
        skipSpace_cons (c := ':') rfl, skipSpace_cons (c := ',') rfl]

end

/-- A well-formed value is read back from its printed text. -/
theorem read_compact {v : Json} (hv : WellFormed v) : read (compact v) = some v := by
  have hvalue := readValue_compact v hv (2 * (compactChars v).length + 2) [] (by omega)
    (fun _ h => nomatch h)
  rw [List.append_nil] at hvalue
  rw [read, compact, String.toList_ofList]
  exact Option.bind_eq_some_iff.2 ⟨_, hvalue, rfl⟩

end PenaltySimplex.Json
