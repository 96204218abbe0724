/-!
# PenaltySimplex.Command.Session

A run of the command as a tree: it reads a file, writes a file, or ends. What happens next depends
on the answer to the read or write, so the whole run is a value that says nothing about where the
files are.

A `FileSystem` says what reads and writes do: to a tree of files as a value, to a disk with
permissions, links and little room. A write that fails may have changed its file before.
-/

namespace PenaltySimplex.Command

inductive FileError where
  | notFound
  | permissionDenied
  | notADirectory
  | isADirectory
  | nameTooLong
  | invalidUtf8
  | noSpace
  | other (text : String)
deriving Repr, DecidableEq

def FileError.message : FileError → String
  | .notFound => "No such file or directory (os error 2)"
  | .permissionDenied => "Permission denied (os error 13)"
  | .notADirectory => "Not a directory (os error 20)"
  | .isADirectory => "Is a directory (os error 21)"
  | .nameTooLong => "File name too long (os error 36)"
  | .invalidUtf8 => "stream did not contain valid UTF-8"
  | .noSpace => "No space left on device (os error 28)"
  | .other text => text

structure Exit where
  code : Nat
  stdout : String
  stderr : String
deriving Repr, DecidableEq

inductive Session where
  | exit (e : Exit)
  | read (path : String) (next : Except FileError String → Session)
  | write (path text : String) (next : Except FileError Unit → Session)

/-- Reads and writes of texts by path in a state `σ`, whose files are told apart by an `ι`. -/
structure FileSystem (σ ι : Type) where
  read : σ → String → Except FileError String
  /-- Replaces what a path holds. The state is that after the write, be it done or failed. -/
  write : σ → String → String → Except FileError Unit × σ
  contents? : σ → ι → Option ByteArray
  /-- The file that a write to a path fills, if the path leads to a file or to a free name. -/
  target? : σ → String → Option ι

/-- What is documented of writes. -/
structure FileSystem.IsLawful {σ ι : Type} (fs : FileSystem σ ι) : Prop where
  /-- A write changes no file but that of its path, also when it fails. -/
  contents?_of_ne : ∀ s path text i, fs.target? s path ≠ some i →
    fs.contents? (fs.write s path text).2 i = fs.contents? s i
  /-- A file that a write has filled holds the text, -/
  contents?_target : ∀ s path text i, fs.target? s path = some i →
    (fs.write s path text).1 = .ok () →
      fs.contents? (fs.write s path text).2 i = some text.toUTF8
  /-- which is what its path then reads. -/
  read_write : ∀ s path text i, fs.target? s path = some i →
    (fs.write s path text).1 = .ok () → fs.read (fs.write s path text).2 path = .ok text

namespace Session

def fail (message : String) : Session :=
  .exit ⟨1, "", message ++ "\n"⟩

/-- Runs a session: how it ends, and the state it leaves. -/
def run {σ ι : Type} (fs : FileSystem σ ι) (s : σ) : Session → Exit × σ
  | .exit e => (e, s)
  | .read path next => (next (fs.read s path)).run fs s
  | .write path text next => (next (fs.write s path text).1).run fs (fs.write s path text).2

end Session

end PenaltySimplex.Command
