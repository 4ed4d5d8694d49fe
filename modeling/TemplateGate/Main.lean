/-
# `Main` — the program on a real machine

The operations of a `Host` carried out by the system the program runs on.
There is no way here to start another program, so a compiler is always
reported as missing: this program judges templates that are compiled
already.
-/
import Std.Time.Format
import TemplateGate.CommandLine.Run

namespace TemplateGate

open Text

/-- Why the system refused an operation. -/
def SystemError.ofIO : IO.Error → SystemError
  | .noFileOrDirectory .. => .notFound
  | .alreadyExists .. => .alreadyExists
  | .inappropriateType .. => .isADirectory
  | .permissionDenied .. => .permissionDenied
  | e => .other (toString e)

/-- An operation whose failure is a value. -/
def attempt {α : Type} (act : IO α) : IO (Except SystemError α) := do
  try
    pure (.ok (← act))
  catch e =>
    pure (.error (.ofIO e))

/-- The text of a file. -/
def readTextFile (path : String) : IO (Except SystemError String) := do
  match ← attempt (IO.FS.readBinFile path) with
  | .error e => pure (.error e)
  | .ok bytes =>
      match decode bytes.toList with
      | some text => pure (.ok text)
      | none => pure (.error .notText)

/-- The time of the system, in UTC. -/
def readClock : IO Timestamp := do
  let now ← Std.Time.Timestamp.now
  pure (.ofUnixNanoseconds now.toNanosecondsSinceUnixEpoch.val.toNat)

/-- The machine that the program runs on. -/
def realHost : Host IO where
  isFile path := do
    match ← attempt (IO.FS.readBinFile path) with
    | .ok _ => pure true
    | .error _ => pure false
  readText := readTextFile
  run _ _ := pure (.error .notFound)
  createDirectories path := attempt (IO.FS.createDirAll path)
  writeText path text := attempt (IO.FS.writeFile path text)
  print := IO.print
  printError := IO.eprint
  now := readClock

end TemplateGate

/-- Runs the program. -/
def main (arguments : List String) : IO UInt32 :=
  TemplateGate.CommandLine.run TemplateGate.realHost arguments
