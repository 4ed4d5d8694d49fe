/-
# `Machine.Basic` — a machine as a value

The operations of a `Host` as transitions of a state: the files, the
programs that can be started, what has been printed, and which programs
ran.  A program is any function of its arguments and the files to what it
leaves behind, the files included, so what is proved of the gate on this
machine holds whatever the compiler does.
-/
import TemplateGate.Machine.FileTree

namespace TemplateGate

open Text

/-- What a program makes of its arguments and the files. -/
abbrev Program := List String → FileTree → Completion × FileTree

/-- The state of a machine. -/
structure Machine where
  files : FileTree
  /-- The programs that can be started, by name. -/
  programs : String → Option Program
  /-- The time at each reading of the clock, counted from zero. -/
  clock : Nat → Timestamp
  /-- How often the clock has been read. -/
  readings : Nat
  /-- The programs that ran and their arguments, in order. -/
  runs : List (String × List String)
  stdout : String
  stderr : String

namespace Machine

/-- A machine on which nothing has happened yet. -/
def start (files : FileTree) (programs : String → Option Program) : Machine where
  files
  programs
  clock := fun _ => .epoch
  readings := 0
  runs := []
  stdout := ""
  stderr := ""

/-- The greatest number of bytes in an argument of a program. -/
def maxArgumentBytes : Nat := 131071

/-- Why there is no program with a name.  A name with a slash is the path
of a file, and no file here may be run; nor may a directory. -/
def whyNoProgram (files : FileTree) (program : String) : SystemError :=
  if program.toList.contains '/' then
    match files.lookup program with
    | .ok _ => .permissionDenied
    | .error e => e
  else if program = "." ∨ program = ".." then .permissionDenied
  else if FileTree.maxNameBytes < program.utf8ByteSize then .nameTooLong
  else .notFound

/-- Starts a program and waits for its end. -/
def run (program : String) (arguments : List String) (s : Machine) :
    Except SystemError Completion × Machine :=
  if (program :: arguments).any fun a => a.toList.contains '\x00' then (.error .nulInArgument, s)
  else match s.programs program with
    | none => (.error (whyNoProgram s.files program), s)
    | some behaviour =>
        if arguments.any fun a => maxArgumentBytes < a.utf8ByteSize then
          (.error .argumentTooLong, s)
        else
          let (done, files) := behaviour arguments s.files
          (.ok done, { s with files, runs := s.runs ++ [(program, arguments)] })

/-- Replaces the files by the result of an operation, if it succeeds. -/
def update (result : Except SystemError FileTree) (s : Machine) :
    Except SystemError Unit × Machine :=
  match result with
  | .ok files => (.ok (), { s with files })
  | .error e => (.error e, s)

/-- The operations of a machine. -/
def host : Host (StateM Machine) where
  isFile path s := (s.files.isFile path, s)
  readText path s := (s.files.readText path, s)
  run := run
  createDirectories path s :=
    let (made, files) := s.files.makeDirectories path
    (made, { s with files })
  writeText path text s := update (s.files.write path (encode text)) s
  print text s := ((), { s with stdout := s.stdout ++ text })
  printError text s := ((), { s with stderr := s.stderr ++ text })
  now s := (s.clock s.readings, { s with readings := s.readings + 1 })

end Machine

end TemplateGate
