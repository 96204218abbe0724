import PenaltySimplex.Command.Run

/-!
# PenaltySimplex.Main

The command as a program: it performs the reads and writes of its session on the file system and
ends with the session's code.
-/

namespace PenaltySimplex.Command

def FileError.ofSystem (e : IO.Error) : FileError :=
  match e with
  | .noFileOrDirectory .. => .notFound
  | .permissionDenied .. => .permissionDenied
  | .inappropriateType _ 20 _ => .notADirectory
  | .inappropriateType _ 21 _ => .isADirectory
  | .illegalOperation 21 _ => .isADirectory
  | .resourceExhausted _ 28 _ => .noSpace
  | e => .other (toString e)

def readText (path : String) : IO (Except FileError String) := do
  try
    let bytes ← IO.FS.readBinFile path
    return match String.fromUTF8? bytes with
      | some text => .ok text
      | none => .error .invalidUtf8
  catch e => return .error (.ofSystem e)

def writeText (path text : String) : IO (Except FileError Unit) := do
  try
    IO.FS.writeFile path text
    return .ok ()
  catch e => return .error (.ofSystem e)

def Session.perform : Session → IO UInt32
  | .exit e => do
    IO.print e.stdout
    IO.eprint e.stderr
    return e.code.toUInt32
  | .read path next => do
    let answer ← readText path
    (next answer).perform
  | .write path text next => do
    let answer ← writeText path text
    (next answer).perform

end PenaltySimplex.Command

def main (args : List String) : IO UInt32 :=
  (PenaltySimplex.Command.run args).perform
