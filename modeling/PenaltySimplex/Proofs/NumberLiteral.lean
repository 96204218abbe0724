import PenaltySimplex.Json.Results
import PenaltySimplex.Proofs.JsonText
import PenaltySimplex.Proofs.ShortestDigits

/-!
# PenaltySimplex.Proofs.NumberLiteral

The number literals of printed values: each is a JSON number (`Literal.readNumber_text`) and reads
as the number that was printed (`toFloat?_ofFloat`, `toCount?_ofNat`).

A `Literal` is cut into its parts: a sign, digits, the digits after a point and an exponent. The
two readers of numbers, that of JSON texts and that of numerals, take the same parts off it. A
finite double is printed as a literal of its shortest digits (`exists_literal`), wherever the point
is put and whether or not there is an exponent; those digits round to the double.
-/

namespace PenaltySimplex.Json

open Decimal (digits digitsValue zeros signText digitsValue_digits isDigit_of_mem_digits
  isDigit_of_mem_zeros)

/-! ## Digits -/

theorem digits_ne_nil (n : Nat) : digits n ≠ [] :=
  Nat.toDigits_ne_nil

/-- A positive number is written without a leading zero. -/
theorem head_digits_ne_zero {n : Nat} (hn : 0 < n) : (digits n).head? ≠ some '0' := by
  induction n using Nat.strongRecOn with
  | ind n ih =>
    rw [digits, Nat.toDigits_eq_if (by decide)]
    split
    · rename_i hlt
      interval_cases n <;> decide
    · rename_i hge
      rw [List.head?_append_of_ne_nil _ Nat.toDigits_ne_nil]
      exact ih (n / 10) (by omega) (by omega)

theorem digitsValue_append_zeros (n k : Nat) : digitsValue (digits n ++ zeros k) = n * 10 ^ k := by
  rw [Decimal.digitsValue_eq, Nat.ofDigitChars_append, ← Decimal.digitsValue_eq, digitsValue_digits,
    zeros, Nat.ofDigitChars_replicate_zero, Nat.mul_comm]

/-! ## Parts of a literal -/

/-- A sign, digits without a leading zero, digits after a point and an exponent; the last two may
be missing. -/
structure Literal where
  negative : Bool
  whole : List Char
  places : List Char
  exponent : Option ℤ
  nonempty : whole ≠ []
  digits_whole : ∀ c ∈ whole, c.isDigit = true
  digits_places : ∀ c ∈ places, c.isDigit = true
  no_leading_zero : whole = ['0'] ∨ whole.head? ≠ some '0'

def placesText (places : List Char) : List Char :=
  if places = [] then [] else '.' :: places

def exponentText : Option ℤ → List Char
  | none => []
  | some e => 'e' :: (if e < 0 then '-' else '+') :: digits e.natAbs

def Literal.text (l : Literal) : List Char :=
  signText l.negative ++ (l.whole ++ (placesText l.places ++ exponentText l.exponent))

/-- What a literal stands for. -/
def Literal.numeral (l : Literal) : Decimal.Numeral :=
  ⟨l.negative, digitsValue (l.whole ++ l.places), l.exponent.getD 0 - l.places.length⟩

/-- The digits end here. -/
def EndsDigits (rest : List Char) : Prop :=
  ∀ c ∈ rest.head?, c.isDigit = false

theorem endsDigits_exponentText (e : Option ℤ) : EndsDigits (exponentText e) := by
  intro c hc
  cases e with
  | none => cases hc
  | some e =>
    cases hc
    rfl

theorem endsDigits_placesText (places : List Char) (e : Option ℤ) :
    EndsDigits (placesText places ++ exponentText e) := by
  unfold placesText
  split
  · exact endsDigits_exponentText e
  · intro c hc
    cases hc
    rfl

theorem takeWhile_digits {ds rest : List Char} (hds : ∀ c ∈ ds, c.isDigit = true)
    (hrest : EndsDigits rest) :
    (ds ++ rest).takeWhile Char.isDigit = ds ∧ (ds ++ rest).dropWhile Char.isDigit = rest := by
  rw [List.takeWhile_append_of_pos hds, List.dropWhile_append_of_pos hds]
  cases rest with
  | nil => simp
  | cons c rest => simp [hrest c rfl]

/-! ## Reading as a JSON number -/

theorem readDigits_append {ds rest : List Char} (hne : ds ≠ []) (hds : ∀ c ∈ ds, c.isDigit = true)
    (hrest : EndsDigits rest) : readDigits (ds ++ rest) = some (ds, rest) := by
  obtain ⟨htake, hdrop⟩ := takeWhile_digits hds hrest
  simp [readDigits, htake, hdrop, hne]

theorem readWhole_append (l : Literal) {rest : List Char} (hrest : EndsDigits rest) :
    readWhole (l.whole ++ rest) = some (l.whole, rest) := by
  obtain hzero | hhead := l.no_leading_zero
  · have hstop : ¬ (rest.head?.any Char.isDigit = true) := by
      cases rest with
      | nil => exact Bool.false_ne_true
      | cons c rest => simp [hrest c rfl]
    rw [hzero, List.cons_append, List.nil_append, readWhole, if_neg hstop]
  · obtain ⟨c, cs, hcs⟩ := List.exists_cons_of_ne_nil l.nonempty
    rw [hcs] at hhead
    have hread := readDigits_append l.nonempty l.digits_whole hrest
    rw [hcs] at hread ⊢
    rw [← hread]
    exact readWhole.eq_2 _ fun _ h => hhead (congrArg some (List.cons.inj h).1)

theorem readPlaces_append {places : List Char} (hplaces : ∀ c ∈ places, c.isDigit = true)
    (e : Option ℤ) :
    readPlaces (placesText places ++ exponentText e) =
      some (placesText places, exponentText e) := by
  unfold placesText
  split
  · cases e <;> rfl
  · rename_i hne
    rw [List.cons_append, readPlaces, readDigits_append hne hplaces (endsDigits_exponentText e)]
    rfl

theorem readExponent_exponentText (e : Option ℤ) :
    readExponent (exponentText e) = some (exponentText e, []) := by
  cases e with
  | none => rfl
  | some e =>
    have hread : readDigits (digits e.natAbs ++ []) = _ :=
      readDigits_append (digits_ne_nil e.natAbs) (fun _ => isDigit_of_mem_digits)
        fun _ h => nomatch h
    rw [List.append_nil] at hread
    have hsign : (if e < 0 then '-' else '+') = '+' ∨ (if e < 0 then '-' else '+') = '-' := by
      split
      · exact .inr rfl
      · exact .inl rfl
    rw [exponentText, readExponent, if_pos (.inl rfl)]
    simp only [if_pos hsign, hread, Option.map_some]

/-- A literal is a JSON number. -/
theorem Literal.readNumber_text (l : Literal) : readNumber l.text = some (l.text, []) := by
  have hunsigned :
      readUnsignedNumber (l.whole ++ (placesText l.places ++ exponentText l.exponent)) =
        some (l.whole ++ (placesText l.places ++ exponentText l.exponent), []) := by
    rw [readUnsignedNumber, readWhole_append l (endsDigits_placesText l.places l.exponent)]
    simp [readPlaces_append l.digits_places, readExponent_exponentText]
  rw [Literal.text]
  cases l.negative with
  | true => simp [signText, readNumber, hunsigned]
  | false =>
    obtain ⟨c, cs, hcs⟩ := List.exists_cons_of_ne_nil l.nonempty
    have hminus : c ≠ '-' := by
      rintro rfl
      have hdigit := l.digits_whole '-' (by simp [hcs])
      exact absurd hdigit (by decide)
    rw [hcs] at hunsigned ⊢
    simp only [signText, Bool.false_eq_true, if_false, List.nil_append]
    rw [← hunsigned]
    exact readNumber.eq_2 _ fun _ h => hminus (List.cons.inj h).1

/-! ## Reading as a numeral -/

theorem takePlaces_append {places : List Char} (hplaces : ∀ c ∈ places, c.isDigit = true)
    (e : Option ℤ) :
    Decimal.takePlaces (placesText places ++ exponentText e) = (places, exponentText e) := by
  unfold placesText
  split
  · rename_i hnone
    rw [hnone]
    cases e <;> rfl
  · obtain ⟨htake, hdrop⟩ := takeWhile_digits hplaces (endsDigits_exponentText e)
    rw [List.cons_append, Decimal.takePlaces, htake, hdrop]

theorem decimalReadExponent_exponentText (e : Option ℤ) :
    Decimal.readExponent (exponentText e) = some (e.getD 0) := by
  cases e with
  | none => rfl
  | some e =>
    have hall : digits e.natAbs ≠ [] ∧ (digits e.natAbs).all Char.isDigit = true :=
      ⟨digits_ne_nil _, List.all_eq_true.2 fun _ => isDigit_of_mem_digits⟩
    rw [exponentText, Decimal.readExponent, if_pos (.inl rfl)]
    by_cases he : e < 0
    · simp only [if_pos he, Decimal.takeSign, if_pos hall, digitsValue_digits, if_true,
        Option.getD_some]
      congr 1
      omega
    · simp only [if_neg he, Decimal.takeSign, if_pos hall, digitsValue_digits, Bool.false_eq_true,
        if_false, Option.getD_some]
      congr 1
      omega

/-- A literal is read as what it stands for. -/
theorem Literal.readNumeral_text (l : Literal) :
    Decimal.readNumeral (String.ofList l.text) = some l.numeral := by
  obtain ⟨c, cs, hcs⟩ := List.exists_cons_of_ne_nil l.nonempty
  have hsign : Decimal.takeSign l.text =
      (l.negative, l.whole ++ (placesText l.places ++ exponentText l.exponent)) := by
    rw [Literal.text, hcs]
    exact Decimal.takeSign_signText l.negative (l.digits_whole c (by simp [hcs]))
  obtain ⟨htake, hdrop⟩ :=
    takeWhile_digits l.digits_whole (endsDigits_placesText l.places l.exponent)
  rw [Decimal.readNumeral, String.toList_ofList, hsign]
  simp [Decimal.readUnsigned, htake, hdrop, takePlaces_append l.digits_places, l.nonempty,
    decimalReadExponent_exponentText, Literal.numeral]

/-! ## What is printed -/

/-- The text of a literal, and the number that it stands for. -/
structure Literal.Shows (l : Literal) (text : List Char) (negative : Bool) (v : ℚ) : Prop where
  text_eq : l.text = signText negative ++ text
  negative_eq : l.numeral.negative = negative
  value_eq : (l.numeral.digits : ℚ) * 10 ^ l.numeral.exponent = v

/-- Digits and zeros before a point, and a zero after it. -/
theorem exists_shows_zeros (negative : Bool) {n : Nat} (hn : 0 < n) (k : Nat) :
    ∃ l : Literal, l.Shows (digits n ++ zeros k ++ ['.', '0']) negative (n * 10 ^ (k : ℤ)) := by
  have hdigits : ∀ c ∈ digits n ++ zeros k, c.isDigit = true := by
    intro c hc
    obtain hc | hc := List.mem_append.1 hc
    · exact isDigit_of_mem_digits hc
    · exact isDigit_of_mem_zeros hc
  have hhead : (digits n ++ zeros k).head? ≠ some '0' := by
    rw [List.head?_append_of_ne_nil _ (digits_ne_nil n)]
    exact head_digits_ne_zero hn
  have hvalue : digitsValue (digits n ++ zeros k ++ ['0']) = n * 10 ^ (k + 1) := by
    rw [← digitsValue_append_zeros, List.append_assoc, zeros, zeros, ← List.replicate_succ']
  refine ⟨⟨negative, digits n ++ zeros k, ['0'], none, by simp [digits_ne_nil], hdigits,
    by simp, .inr hhead⟩, ?_, rfl, ?_⟩
  · simp [Literal.text, placesText, exponentText]
  · simp only [Literal.numeral, hvalue, Option.getD_none, List.length_singleton]
    rw [Nat.cast_mul, Nat.cast_pow, Nat.cast_ofNat, ← zpow_natCast, mul_assoc,
      ← zpow_add₀ (by norm_num)]
    congr 2
    omega

/-- A zero before a point, and zeros and digits after it. -/
theorem exists_shows_fraction (negative : Bool) (n k : Nat) :
    ∃ l : Literal, l.Shows ('0' :: '.' :: zeros k ++ digits n) negative
      (n * 10 ^ (-((k + (digits n).length : Nat) : ℤ))) := by
  have hne : zeros k ++ digits n ≠ [] := by simp [digits_ne_nil]
  have hvalue : digitsValue (['0'] ++ (zeros k ++ digits n)) = n := by
    rw [← List.append_assoc]
    exact Decimal.digitsValue_zeros_append (k + 1) n
  refine ⟨⟨negative, ['0'], zeros k ++ digits n, none, by simp, by simp,
    fun _ => Decimal.isDigit_of_mem_padded, .inl rfl⟩, ?_, rfl, ?_⟩
  · simp [Literal.text, placesText, exponentText, hne]
  · simp only [Literal.numeral, hvalue, Option.getD_none, List.length_append, zero_sub]
    rw [zeros, List.length_replicate]

/-- Digits with a point among them or none, and an exponent or none. -/
theorem exists_shows_split (negative : Bool) {n : Nat} (hn : 0 < n) {whole places : List Char}
    (hsplit : digits n = whole ++ places) (hne : whole ≠ []) (e : Option ℤ) :
    ∃ l : Literal, l.Shows (whole ++ (placesText places ++ exponentText e)) negative
      (n * 10 ^ (e.getD 0 - places.length)) := by
  have hdigits (c : Char) (hc : c ∈ whole ++ places) : c.isDigit = true := by
    rw [← hsplit] at hc
    exact isDigit_of_mem_digits hc
  have hhead : whole.head? ≠ some '0' := by
    rw [← List.head?_append_of_ne_nil _ hne, ← hsplit]
    exact head_digits_ne_zero hn
  refine ⟨⟨negative, whole, places, e, hne, fun c hc => hdigits c (List.mem_append_left _ hc),
    fun c hc => hdigits c (List.mem_append_right _ hc), .inr hhead⟩, rfl, rfl, ?_⟩
  simp only [Literal.numeral, ← hsplit, digitsValue_digits]

theorem exists_shows_positional (negative : Bool) {n : Nat} (hn : 0 < n) (p : ℤ) :
    ∃ l : Literal,
      l.Shows (Decimal.positional (digits n) p ++ (if 0 ≤ p then ".0".toList else [])) negative
        (n * 10 ^ p) := by
  unfold Decimal.positional
  by_cases hp : 0 ≤ p
  · obtain ⟨k, rfl⟩ := Int.eq_ofNat_of_zero_le hp
    have hzero : ".0".toList = ['.', '0'] := rfl
    simpa only [if_pos hp, Int.toNat_natCast, hzero] using exists_shows_zeros negative hn k
  · obtain ⟨k, rfl⟩ : ∃ k : Nat, p = -k := ⟨p.natAbs, by omega⟩
    have hplaces : (- -(k : ℤ)).toNat = k := by omega
    simp only [if_neg hp, hplaces, List.append_nil]
    split
    · rename_i hlt
      obtain ⟨l, hl⟩ := exists_shows_split negative hn
        (List.take_append_drop ((digits n).length - k) (digits n)).symm
        (List.ne_nil_of_length_pos (by rw [List.length_take]; omega)) none
      have hdrop : ((digits n).drop ((digits n).length - k)).length = k := by
        rw [List.length_drop]
        omega
      have hne : (digits n).drop ((digits n).length - k) ≠ [] :=
        List.ne_nil_of_length_pos (by omega)
      rw [hdrop, placesText, if_neg hne, Option.getD_none, zero_sub, exponentText,
        List.append_nil] at hl
      exact ⟨l, hl⟩
    · rename_i hge
      have hlength : k - (digits n).length + (digits n).length = k := by omega
      have hshows := exists_shows_fraction negative n (k - (digits n).length)
      rwa [hlength] at hshows

theorem leading_cons (d : Char) (ds : List Char) :
    Decimal.leading (d :: ds) = [d] ++ placesText ds := by
  cases ds <;> rfl

theorem exists_shows_leading (negative : Bool) {n : Nat} (hn : 0 < n) (e : ℤ) :
    ∃ l : Literal,
      l.Shows (Decimal.leading (digits n) ++ 'e' :: (if 0 ≤ e then ['+'] else []) ++
        Decimal.integerText e) negative (n * 10 ^ (e - (digits n).length + 1)) := by
  obtain ⟨d, ds, hds⟩ := List.exists_cons_of_ne_nil (digits_ne_nil n)
  obtain ⟨l, hl⟩ := exists_shows_split negative hn (show digits n = [d] ++ ds from hds)
    (List.cons_ne_nil d []) (some e)
  have hexponent : exponentText (some e) =
      'e' :: (if 0 ≤ e then ['+'] else []) ++ Decimal.integerText e := by
    by_cases he : e < 0
    · simp [exponentText, Decimal.integerText, signText, he, not_le.2 he]
    · simp [exponentText, Decimal.integerText, signText, he, not_lt.1 he]
  have hlength : e - ((ds.length + 1 : Nat) : ℤ) + 1 = e - ds.length := by omega
  rw [hexponent, Option.getD_some] at hl
  rw [hds, leading_cons, List.length_cons, hlength]
  simp only [List.append_assoc, List.cons_append, List.nil_append] at hl ⊢
  exact ⟨l, hl⟩

/-- Zero is printed with a point too. -/
theorem exists_shows_zero (negative : Bool) :
    ∃ l : Literal, l.Shows "0.0".toList negative 0 :=
  ⟨⟨negative, ['0'], ['0'], none, by simp, by simp, by simp, .inl rfl⟩, rfl, rfl, by
    rw [Literal.numeral, show digitsValue (['0'] ++ ['0']) = 0 from rfl, Nat.cast_zero, zero_mul]⟩

theorem exists_shows_digits (negative : Bool) {s : Decimal.Digits} (hs : 0 < s.digits) :
    ∃ l : Literal,
      l.Shows
        (if isPositional (s.exponent + (digits s.digits).length - 1) then
          Decimal.positional (digits s.digits) s.exponent ++
            (if 0 ≤ s.exponent then ".0".toList else [])
        else
          Decimal.leading (digits s.digits) ++
            'e' :: (if 0 ≤ s.exponent + (digits s.digits).length - 1 then ['+'] else []) ++
            Decimal.integerText (s.exponent + (digits s.digits).length - 1))
        negative (s.digits * 10 ^ s.exponent) := by
  split
  · exact exists_shows_positional negative hs s.exponent
  · have hshows := exists_shows_leading negative hs (s.exponent + (digits s.digits).length - 1)
    rwa [show s.exponent + ((digits s.digits).length : ℤ) - 1 - (digits s.digits).length + 1 =
      s.exponent by omega] at hshows

theorem roundsTo_zero (q : ℤ) : RoundsTo 0 q 0 := by
  have hpos : (0 : ℚ) < 2 ^ q := zpow_pos two_pos q
  have hstep : 0 < stepBelow 0 q := by
    unfold stepBelow
    split
    · exact zpow_pos two_pos _
    · exact hpos
  rw [RoundsTo, if_pos rfl, Nat.cast_zero, zero_mul]
  constructor <;> linarith

/-- A finite double is printed as a literal of a number that rounds to it. -/
theorem exists_literal {x : Float} (hx : x.isFinite = true) :
    ∃ l : Literal, floatLiteral x = String.ofList l.text ∧ l.numeral.toFloat = x := by
  obtain ⟨negative, m, q, hbinary, hle⟩ := ofFloat_of_isFinite hx
  obtain ⟨hform, hq⟩ := doubleForm_ofFloat hbinary
  have hread (l : Literal) (text : List Char) (v : ℚ) (hl : l.Shows text negative v)
      (hv : v ≤ greatest) (hrounds : RoundsTo m q v) : l.numeral.toFloat = x := by
    rw [← hl.value_eq] at hv hrounds
    have hfloat := toFloat_of_roundsTo hbinary hv hrounds
    rwa [← hl.negative_eq] at hfloat
  rw [floatLiteral, Decimal.render, hbinary]
  obtain rfl | hm := Nat.eq_zero_or_pos m
  · obtain ⟨l, hl⟩ := exists_shows_zero negative
    refine ⟨l, by rw [hl.text_eq]; rfl, hread l _ _ hl ?_ (roundsTo_zero q)⟩
    rwa [Nat.cast_zero, zero_mul] at hle
  · obtain ⟨hpos, hrounds⟩ := Decimal.roundsTo_shortest .even hform hm
    obtain ⟨l, hl⟩ := exists_shows_digits negative hpos
    refine ⟨l, ?_, hread l _ _ hl (Decimal.shortest_le_greatest .even hform hm hq) hrounds⟩
    rw [hl.text_eq]
    simp only [if_neg hm.ne']

/-! ## Reading back -/

/-- A finite double is read back from its literal. -/
theorem toFloat?_ofFloat {x : Float} (hx : x.isFinite = true) : toFloat? (ofFloat x) = some x := by
  obtain ⟨l, htext, hfloat⟩ := exists_literal hx
  rw [ofFloat, if_pos hx, toFloat?, htext, l.readNumeral_text, Option.map_some, hfloat,
    Option.filter_some, if_pos hx]

theorem wellFormed_ofFloat (x : Float) : WellFormed (ofFloat x) := by
  unfold ofFloat
  split
  · rename_i hx
    obtain ⟨l, htext, _⟩ := exists_literal hx
    rw [WellFormed, htext, String.toList_ofList]
    exact l.readNumber_text
  · exact trivial

/-- The literal of a count is its digits. -/
def countLiteral (n : Nat) : Literal where
  negative := false
  whole := digits n
  places := []
  exponent := none
  nonempty := digits_ne_nil n
  digits_whole := fun _ => isDigit_of_mem_digits
  digits_places := by simp
  no_leading_zero := by
    obtain rfl | hn := Nat.eq_zero_or_pos n
    · exact .inl rfl
    · exact .inr (head_digits_ne_zero hn)

theorem text_countLiteral (n : Nat) : (countLiteral n).text = digits n := by
  simp [Literal.text, countLiteral, signText, placesText, exponentText]

theorem wellFormed_ofNat (n : Nat) : WellFormed (ofNat n) := by
  rw [ofNat, WellFormed, String.toList_ofList, ← text_countLiteral]
  exact (countLiteral n).readNumber_text

/-- A count below the limit is read back from its digits. -/
theorem toCount?_ofNat {n : Nat} (hn : n < 2 ^ 64) : toCount? (ofNat n) = some n := by
  have hall : (digits n).all Char.isDigit = true :=
    List.all_eq_true.2 fun _ => isDigit_of_mem_digits
  have hle : n ≤ Decimal.maxCount := Nat.le_of_lt_succ hn
  have hcount : digits n ≠ [] ∧ (digits n).all Char.isDigit = true ∧
      digitsValue (digits n) ≤ Decimal.maxCount :=
    ⟨digits_ne_nil n, hall, (digitsValue_digits n).trans_le hle⟩
  simp only [toCount?, ofNat, String.toList_ofList, if_pos hall, Decimal.readCount]
  split
  · rename_i hplus
    have hdigit := isDigit_of_mem_digits (n := n) (c := '+') (by simp [hplus])
    exact absurd hdigit (by decide)
  · rw [if_pos hcount, digitsValue_digits]

end PenaltySimplex.Json
