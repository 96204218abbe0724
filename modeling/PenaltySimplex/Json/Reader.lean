import PenaltySimplex.Json.Value

/-!
# PenaltySimplex.Json.Reader

Reading a JSON text, with nothing but white space after the value. A reader returns what it read
and the text that follows, or nothing if the text does not start as it should.

Values nest, so reading them recurses on a depth. Each value takes at least one character, and
`read` starts with a depth that no text can exhaust.
-/

namespace PenaltySimplex.Json

def isSpace (c : Char) : Bool :=
  c == ' ' || c == '\n' || c == '\t' || c == '\r'

def skipSpace (cs : List Char) : List Char :=
  cs.dropWhile isSpace

/-! ## Numbers -/

/-- Digits, at least one. -/
def readDigits (cs : List Char) : Option (List Char × List Char) :=
  let ds := cs.takeWhile Char.isDigit
  if ds.isEmpty then none else some (ds, cs.dropWhile Char.isDigit)

/-- Digits without a leading zero, or a lone zero. -/
def readWhole : List Char → Option (List Char × List Char)
  | '0' :: cs => if cs.head?.any Char.isDigit then none else some (['0'], cs)
  | cs => readDigits cs

/-- A point and digits, or nothing. -/
def readPlaces : List Char → Option (List Char × List Char)
  | '.' :: cs => (readDigits cs).map fun (ds, rest) => ('.' :: ds, rest)
  | cs => some ([], cs)

/-- An exponent mark, a sign that may be missing and digits, or nothing. -/
def readExponent : List Char → Option (List Char × List Char)
  | c :: cs =>
    if c = 'e' ∨ c = 'E' then
      match cs with
      | s :: rest =>
        if s = '+' ∨ s = '-' then
          (readDigits rest).map fun (ds, rest) => (c :: s :: ds, rest)
        else (readDigits cs).map fun (ds, rest) => (c :: ds, rest)
      | [] => none
    else some ([], c :: cs)
  | [] => some ([], [])

def readUnsignedNumber (cs : List Char) : Option (List Char × List Char) := do
  let (whole, cs) ← readWhole cs
  let (places, cs) ← readPlaces cs
  let (exponent, cs) ← readExponent cs
  return (whole ++ places ++ exponent, cs)

def readNumber : List Char → Option (List Char × List Char)
  | '-' :: cs => (readUnsignedNumber cs).map fun (ds, rest) => ('-' :: ds, rest)
  | cs => readUnsignedNumber cs

/-! ## Strings -/

/-- A character that stands for itself or a UTF-16 code unit named by its number. -/
inductive CodeUnit where
  | char (c : Char)
  | unit (n : Nat)
deriving Repr, DecidableEq

def hexValue? (c : Char) : Option Nat :=
  if c.isDigit then some (c.toNat - '0'.toNat)
  else if 'a' ≤ c ∧ c ≤ 'f' then some (c.toNat - 'a'.toNat + 10)
  else if 'A' ≤ c ∧ c ≤ 'F' then some (c.toNat - 'A'.toNat + 10)
  else none

def hexNumber? (a b c d : Char) : Option Nat := do
  return 4096 * (← hexValue? a) + 256 * (← hexValue? b) + 16 * (← hexValue? c) + (← hexValue? d)

/-- The character of a one-letter escape. -/
def unescape? (c : Char) : Option Char :=
  if c = '"' ∨ c = '\\' ∨ c = '/' then some c
  else if c = 'b' then some '\x08'
  else if c = 'f' then some '\x0c'
  else if c = 'n' then some '\n'
  else if c = 'r' then some '\r'
  else if c = 't' then some '\t'
  else none

/-- The code units of a string after its opening quote, up to the closing one. -/
def readUnits : List Char → Option (List CodeUnit × List Char)
  | [] => none
  | '"' :: cs => some ([], cs)
  | '\\' :: 'u' :: a :: b :: c :: d :: cs => do
    let n ← hexNumber? a b c d
    let (units, rest) ← readUnits cs
    return (.unit n :: units, rest)
  | '\\' :: c :: cs => do
    let e ← unescape? c
    let (units, rest) ← readUnits cs
    return (.char e :: units, rest)
  | c :: cs =>
    if c.toNat < 0x20 then none
    else do
      let (units, rest) ← readUnits cs
      return (.char c :: units, rest)

/-- The characters of code units. A high surrogate needs a low one after it, and a low one needs
a high one before it. -/
def decodeUnits : List CodeUnit → Option (List Char)
  | [] => some []
  | .char c :: rest => (decodeUnits rest).map (c :: ·)
  | .unit n :: rest =>
    if n < 0xD800 ∨ 0xDFFF < n then (decodeUnits rest).map (Char.ofNat n :: ·)
    else if n < 0xDC00 then
      match rest with
      | .unit low :: rest =>
        if 0xDC00 ≤ low ∧ low ≤ 0xDFFF then
          (decodeUnits rest).map
            (Char.ofNat (0x10000 + 1024 * (n - 0xD800) + (low - 0xDC00)) :: ·)
        else none
      | _ => none
    else none

/-- A string after its opening quote. -/
def readString (cs : List Char) : Option (Option String × List Char) :=
  (readUnits cs).map fun (units, rest) => ((decodeUnits units).map String.ofList, rest)

/-! ## Values -/

mutual

/-- A value after white space. -/
def readValue : Nat → List Char → Option (Json × List Char)
  | 0, _ => none
  | depth + 1, cs =>
    match skipSpace cs with
    | 'n' :: 'u' :: 'l' :: 'l' :: rest => some (.null, rest)
    | 't' :: 'r' :: 'u' :: 'e' :: rest => some (.bool true, rest)
    | 'f' :: 'a' :: 'l' :: 's' :: 'e' :: rest => some (.bool false, rest)
    | '"' :: rest => (readString rest).map fun (s, rest) => (.text s, rest)
    | '[' :: rest =>
      match skipSpace rest with
      | ']' :: rest => some (.array [], rest)
      | rest => (readItems depth rest).map fun (items, rest) => (.array items, rest)
    | '\x7b' :: rest =>
      match skipSpace rest with
      | '\x7d' :: rest => some (.object [], rest)
      | rest => (readMembers depth rest).map fun (members, rest) => (.object members, rest)
    | rest => (readNumber rest).map fun (ds, rest) => (.number (String.ofList ds), rest)

/-- Items up to the closing bracket; there is at least one. -/
def readItems : Nat → List Char → Option (List Json × List Char)
  | 0, _ => none
  | depth + 1, cs => do
    let (item, rest) ← readValue depth cs
    match skipSpace rest with
    | ']' :: rest => return ([item], rest)
    | ',' :: rest =>
      let (items, rest) ← readItems depth rest
      return (item :: items, rest)
    | _ => none

/-- Members up to the closing brace; there is at least one. -/
def readMembers : Nat → List Char → Option (List (Option String × Json) × List Char)
  | 0, _ => none
  | depth + 1, cs =>
    match skipSpace cs with
    | '"' :: rest => do
      let (key, rest) ← readString rest
      match skipSpace rest with
      | ':' :: rest =>
        let (value, rest) ← readValue depth rest
        match skipSpace rest with
        | '\x7d' :: rest => return ([(key, value)], rest)
        | ',' :: rest =>
          let (members, rest) ← readMembers depth rest
          return ((key, value) :: members, rest)
        | _ => none
      | _ => none
    | _ => none

end

def read (source : String) : Option Json := do
  let cs := source.toList
  let (v, rest) ← readValue (2 * cs.length + 2) cs
  if (skipSpace rest).isEmpty then return v else none

end PenaltySimplex.Json
