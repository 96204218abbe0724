import PenaltySimplex.Json.Value

/-!
# PenaltySimplex.Json.Printer

Written forms of a JSON value: `compact` on one line without spaces, `pretty` with two spaces per
level. `sorted` puts the members of every object in the order of their keys.
-/

namespace PenaltySimplex.Json

def hex4 (n : Nat) : List Char :=
  let ds := Nat.toDigits 16 n
  List.replicate (4 - ds.length) '0' ++ ds

/-- Quotes, backslashes and control characters are escaped, nothing else is. -/
def escape (c : Char) : List Char :=
  if c = '"' then ['\\', '"']
  else if c = '\\' then ['\\', '\\']
  else if c = '\x08' then ['\\', 'b']
  else if c = '\x0c' then ['\\', 'f']
  else if c = '\n' then ['\\', 'n']
  else if c = '\r' then ['\\', 'r']
  else if c = '\t' then ['\\', 't']
  else if c.toNat < 0x20 then '\\' :: 'u' :: hex4 c.toNat
  else [c]

/-- A string that names no characters is written as if it were empty. -/
def quoted (s : Option String) : List Char :=
  '"' :: (s.getD "").toList.flatMap escape ++ ['"']

mutual

def compactChars : Json → List Char
  | .null => "null".toList
  | .bool b => (if b then "true" else "false").toList
  | .number literal => literal.toList
  | .text s => quoted s
  | .array items => '[' :: compactItems items ++ [']']
  | .object members => '\x7b' :: compactMembers members ++ ['\x7d']

def compactItems : List Json → List Char
  | [] => []
  | item :: rest =>
    compactChars item ++ (if rest.isEmpty then [] else ',' :: compactItems rest)

def compactMembers : List (Option String × Json) → List Char
  | [] => []
  | (key, value) :: rest =>
    quoted key ++ ':' :: compactChars value ++
      (if rest.isEmpty then [] else ',' :: compactMembers rest)

end

def compact (v : Json) : String :=
  String.ofList (compactChars v)

/-- A line break and the indentation of a level. -/
def breakLine (level : Nat) : List Char :=
  '\n' :: List.replicate (2 * level) ' '

mutual

def prettyChars (level : Nat) : Json → List Char
  | .null => "null".toList
  | .bool b => (if b then "true" else "false").toList
  | .number literal => literal.toList
  | .text s => quoted s
  | .array [] => "[]".toList
  | .array (item :: items) =>
    '[' :: prettyItems (level + 1) (item :: items) ++ breakLine level ++ [']']
  | .object [] => ['\x7b', '\x7d']
  | .object (member :: members) =>
    '\x7b' :: prettyMembers (level + 1) (member :: members) ++ breakLine level ++ ['\x7d']

def prettyItems (level : Nat) : List Json → List Char
  | [] => []
  | item :: rest =>
    breakLine level ++ prettyChars level item ++
      (if rest.isEmpty then [] else ',' :: prettyItems level rest)

def prettyMembers (level : Nat) : List (Option String × Json) → List Char
  | [] => []
  | (key, value) :: rest =>
    breakLine level ++ quoted key ++ ':' :: ' ' :: prettyChars level value ++
      (if rest.isEmpty then [] else ',' :: prettyMembers level rest)

end

def pretty (v : Json) : String :=
  String.ofList (prettyChars 0 v)

mutual

def sorted : Json → Json
  | .array items => .array (sortedItems items)
  | .object members =>
    .object ((sortedMembers members).mergeSort fun a b => a.1.getD "" ≤ b.1.getD "")
  | v => v

def sortedItems : List Json → List Json
  | [] => []
  | item :: rest => sorted item :: sortedItems rest

def sortedMembers : List (Option String × Json) → List (Option String × Json)
  | [] => []
  | (key, value) :: rest => (key, sorted value) :: sortedMembers rest

end

end PenaltySimplex.Json
