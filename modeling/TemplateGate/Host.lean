/-
# `Host` — what the gate asks of the machine it runs on

The gate reads files, runs a compiler, writes reports and prints.  All of
that goes through a `Host`, a record of operations in some monad, so that
the same definitions run on a real machine and on the pure model of one
in `Machine`, about which things can be proved.

An operation that fails says why in the words of the system.
-/
import TemplateGate.Timestamp

namespace TemplateGate

/-- Why the machine refused an operation on a file or a program. -/
inductive SystemError where
  | notFound
  | alreadyExists
  | notADirectory
  | isADirectory
  | permissionDenied
  /-- A name in a path, or a path as a whole, is longer than any may be. -/
  | nameTooLong
  | argumentTooLong
  /-- A path holds the character U+0000. -/
  | nulInPath
  /-- The name of a program or an argument holds the character U+0000. -/
  | nulInArgument
  /-- The bytes of a file are not the encoding of a text. -/
  | notText
  | other (text : String)
  deriving DecidableEq, Repr

/-- The words of the system. -/
def SystemError.message : SystemError → String
  | .notFound => "No such file or directory (os error 2)"
  | .alreadyExists => "File exists (os error 17)"
  | .notADirectory => "Not a directory (os error 20)"
  | .isADirectory => "Is a directory (os error 21)"
  | .permissionDenied => "Permission denied (os error 13)"
  | .nameTooLong => "File name too long (os error 36)"
  | .argumentTooLong => "Argument list too long (os error 7)"
  | .nulInPath => "file name contained an unexpected NUL byte"
  | .nulInArgument => "nul byte found in provided data"
  | .notText => "stream did not contain valid UTF-8"
  | .other text => text

/-- How a program came to its end. -/
inductive ExitStatus where
  | code (value : Int)
  /-- A signal killed it. -/
  | signal
  deriving DecidableEq, Repr

namespace ExitStatus

/-- Whether a program succeeded. -/
def isSuccess : ExitStatus → Bool
  | code value => value == 0
  | signal => false

/-- The exit code, if the program came to its end by itself. -/
def code? : ExitStatus → Option Int
  | code value => some value
  | signal => none

end ExitStatus

/-- What a program that ran has left behind. -/
structure Completion where
  status : ExitStatus
  stdout : List UInt8
  stderr : List UInt8
  deriving DecidableEq, Repr

/-- The operations of a machine. -/
structure Host (m : Type → Type) where
  /-- Whether a path leads to a file; a directory is none. -/
  isFile : String → m Bool
  readText : String → m (Except SystemError String)
  /-- Runs a program with arguments to its end. -/
  run : String → List String → m (Except SystemError Completion)
  /-- Makes a directory and those that contain it, where they are missing. -/
  createDirectories : String → m (Except SystemError Unit)
  /-- Writes a text over whatever a file holds. -/
  writeText : String → String → m (Except SystemError Unit)
  print : String → m Unit
  printError : String → m Unit
  now : m Timestamp

end TemplateGate
