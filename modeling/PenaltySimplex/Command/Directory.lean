import PenaltySimplex.Command.Session

/-!
# PenaltySimplex.Command.Directory

A directory tree as a value, and sessions run in it.

A path is walked one name at a time: empty names and `.` stay, `..` goes up, a name that is not
there is an error unless it is the last one and the file is to be written. `..` also leads out of
the tree. The directories above are there, but nothing is known to be in them. Under the root there
is one device, `/dev/null`, which takes every text and keeps none.

A place in the tree is the list of names that lead to it from the top. A place above the top or
below one of those starts with one `..` for each level, and a place that a path counts from the
root starts with `/`.

A tree leaves out permissions, links, directories that hold no file and all other devices.
-/

namespace PenaltySimplex.Command

/-- The files of a tree, each with its place, and those written outside of the tree. -/
structure Directory where
  files : List (List String × ByteArray)

namespace Directory

inductive Place where
  | directory
  | file (path : List String) (contents : ByteArray)
  /-- A name that is free, in a directory that exists. -/
  | free (path : List String)
  /-- The device that is always empty. -/
  | null

def maxNameLength : Nat := 255

/-- The largest length of a path in bytes. -/
def maxPathLength : Nat := 4095

def inside (d : Directory) : List (List String × ByteArray) :=
  d.files.filter fun (path, _) => path.head? != some ".." && path.head? != some "/"

/-- The directory above one; the root is above itself. -/
def parent (path : List String) : List String :=
  match path.getLast? with
  | none | some ".." => path ++ [".."]
  | some "/" => path
  | some _ => path.dropLast

def nullPath : List String := ["/", "dev", "null"]

/-- A named directory is there if it holds a file or the device. -/
def isDirectory (d : Directory) (path : List String) : Bool :=
  path == nullPath.dropLast || d.files.any fun (name, _) => path.isPrefixOf name && path != name

def contents? (d : Directory) (path : List String) : Option ByteArray :=
  d.files.lookup path

/-- Walks the names from a directory that exists. -/
def walk (d : Directory) (here : List String) : List String → Except FileError Place
  | [] => .ok .directory
  | name :: rest =>
    if name = "" ∨ name = "." then d.walk here rest
    else if name = ".." then d.walk (parent here) rest
    else if maxNameLength < name.utf8ByteSize then .error .nameTooLong
    else
      let path := here ++ [name]
      if path = nullPath then if rest.isEmpty then .ok .null else .error .notADirectory
      else match d.contents? path with
      | some bytes => if rest.isEmpty then .ok (.file path bytes) else .error .notADirectory
      | none =>
        if d.isDirectory path then d.walk path rest
        else if rest.isEmpty then .ok (.free path)
        else .error .notFound

def names (path : String) : List String :=
  (path.toList.splitOn '/').map String.ofList

/-- Walks the names of a path from the top, or from the root if the path starts there. -/
def walkFrom (d : Directory) (path : String) (names : List String) : Except FileError Place :=
  if maxPathLength < path.utf8ByteSize then .error .nameTooLong
  else d.walk (if path.startsWith "/" then ["/"] else []) names

def read (d : Directory) (path : String) : Except FileError String :=
  match d.walkFrom path (names path) with
  | .error e => .error e
  | .ok .directory => .error .isADirectory
  | .ok (.free _) => .error .notFound
  | .ok .null => .ok ""
  | .ok (.file _ bytes) =>
    match String.fromUTF8? bytes with
    | some text => .ok text
    | none => .error .invalidUtf8

def insert (d : Directory) (path : List String) (bytes : ByteArray) : Directory :=
  ⟨d.files.filter (fun (name, _) => name != path) ++ [(path, bytes)]⟩

/-- The names of a path up to the slashes that it ends with. -/
def namesBeforeSlashes (path : String) : List String :=
  ((names path).reverse.dropWhile String.isEmpty).reverse

def endsWithSlash (path : String) : Bool :=
  (namesBeforeSlashes path).length < (names path).length

/-- The place of the file that a write to a path fills. -/
def target? (d : Directory) (path : String) : Option (List String) :=
  if endsWithSlash path then none
  else match d.walkFrom path (names path) with
  | .ok (.file place _) | .ok (.free place) => some place
  | _ => none

/-- Puts bytes into a file, as many as there is room for. -/
def put (room : Option Nat) (d : Directory) (place : List String) (bytes : ByteArray) :
    Except FileError Unit × Directory :=
  match room with
  | none => (.ok (), d.insert place bytes)
  | some n =>
    if bytes.size ≤ n then (.ok (), d.insert place bytes)
    else (.error .noSpace, d.insert place (bytes.extract 0 n))

/-- A path that ends with slashes names a directory: once the directory that it would be in is
found, its last name is not even looked up. -/
def write (room : Option Nat) (d : Directory) (path text : String) :
    Except FileError Unit × Directory :=
  if endsWithSlash path then
    match d.walkFrom path ((namesBeforeSlashes path).dropLast ++ ["."]) with
    | .error e => (.error e, d)
    | .ok _ => (.error .isADirectory, d)
  else match d.walkFrom path (names path) with
  | .error e => (.error e, d)
  | .ok .directory => (.error .isADirectory, d)
  | .ok .null => (.ok (), d)
  | .ok (.file place _) | .ok (.free place) => d.put room place text.toUTF8

/-- Trees on a disk that takes so many bytes of a file, or any number. -/
def fileSystem (room : Option Nat) : FileSystem Directory (List String) where
  read := read
  write := write room
  contents? := contents?
  target? := target?

end Directory

/-- Runs a session in a directory with room for every file. -/
def Session.runIn (d : Directory) (session : Session) : Exit × Directory :=
  session.run (Directory.fileSystem none) d

end PenaltySimplex.Command
