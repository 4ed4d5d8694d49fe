/-
# `Template.Failure` — why a template could not be loaded

A failure has a text of its own and perhaps a cause, which is shown
behind it.
-/
import TemplateGate.Host
import TemplateGate.Json.Token
import TemplateGate.Text.Basic

namespace TemplateGate

open Text

/-- Why a template, or a file that belongs to it, could not be loaded. -/
inductive TemplateError where
  | templateNotFound (path : String)
  | read (path : String) (cause : SystemError)
  /-- The compiler did not start. -/
  | spawn (program : String) (cause : SystemError)
  /-- The compiler failed; without a code, a signal killed it. -/
  | compilerFailed (code : Option Int) (stderr : String)
  | nonUtf8Output
  | invalidJson (fault : Json.Fault)
  | malformed (what : String)
  deriving DecidableEq, Repr

namespace TemplateError

/-- What a compiler that failed is reported with. -/
def compilerMessage (code : Option Int) (stderr : String) : String :=
  let status := "compiler exited with status " ++ code.elim "signal" signedNumeral
  if allBlank stderr then status else status ++ ": " ++ trim stderr

/-- The text of a failure, without its cause. -/
def display : TemplateError → String
  | templateNotFound path => "template not found: " ++ path
  | read path _ => "failed to read " ++ path
  | spawn program _ => "failed to run `" ++ program ++ "`"
  | compilerFailed code stderr => compilerMessage code stderr
  | nonUtf8Output => "compiler output is not valid UTF-8"
  | invalidJson _ => "compiled template is not valid JSON"
  | malformed what => "compiled template is malformed: " ++ what

/-- The text of the cause. -/
def cause? : TemplateError → Option String
  | read _ cause => some cause.message
  | spawn _ cause => some cause.message
  | invalidJson fault => some fault.message
  | _ => none

/-- The text of a failure and its cause. -/
def message (e : TemplateError) : String :=
  e.display ++ e.cause?.elim "" fun cause => ": " ++ cause

end TemplateError

end TemplateGate
