/-
# `Template.Compiler` — from a template to its compiled text

A template whose name ends in `.json` is compiled already and read as it
is.  Any other is handed to a compiler, an external program that is told
to write the result to its standard output.  Of a program that fails the
output is not used, whatever it has written; what it complains about is
kept instead.
-/
import TemplateGate.Path
import TemplateGate.Template.Document
import TemplateGate.Text.Utf8

namespace TemplateGate

open Text

variable {m : Type → Type} [Monad m]

/-- How to run a compiler. -/
structure Command where
  program : String
  arguments : List String
  /-- What announces the template among the arguments, if anything does. -/
  fileFlag : Option String
  deriving DecidableEq, Repr

/-- A compiler that comes with the gate. -/
inductive FrontEnd where
  | az
  | bicep
  deriving DecidableEq, Repr

namespace FrontEnd

/-- The name of a compiler on the command line. -/
def name : FrontEnd → String
  | az => "az"
  | bicep => "bicep"

/-- The compiler with a name. -/
def ofName? (s : String) : Option FrontEnd := [az, bicep].find? fun f => f.name = s

/-- How to run a compiler that comes with the gate. -/
def command : FrontEnd → Command
  | az => ⟨"az", ["bicep", "build"], some "--file"⟩
  | bicep => ⟨"bicep", ["build"], none⟩

end FrontEnd

/-- What makes a compiled text of the path of a template. -/
abbrev Compiler (m : Type → Type) := String → m (Except TemplateError String)

namespace Command

/-- All arguments for a template. -/
def argumentsFor (c : Command) (template : String) : List String :=
  c.arguments ++ c.fileFlag.toList ++ [template, "--stdout"]

/-- The compiled text that a program which ran has left behind. -/
def output (done : Completion) : Except TemplateError String :=
  if done.status.isSuccess then
    match decode done.stdout with
    | some text => .ok text
    | none => .error .nonUtf8Output
  else .error (.compilerFailed done.status.code? (decodeLossy done.stderr))

/-- The compiler that runs a command. -/
def compiler (host : Host m) (c : Command) : Compiler m := fun template => do
  match ← host.run c.program (c.argumentsFor template) with
  | .ok done => pure (output done)
  | .error cause => pure (.error (.spawn c.program cause))

end Command

/-- The compiled text of a template. -/
def compileTemplate (host : Host m) (compiler : Compiler m) (template : String) :
    m (Except TemplateError String) := do
  if ← host.isFile template then
    if Path.extension? template = some "json" then
      match ← host.readText template with
      | .ok text => pure (.ok text)
      | .error cause => pure (.error (.read template cause))
    else compiler template
  else pure (.error (.templateNotFound template))

/-- The document that a template describes. -/
def loadDocument (host : Host m) (compiler : Compiler m) (template : String) :
    m (Except TemplateError Document) := do
  match ← compileTemplate host compiler template with
  | .ok text => pure (Document.parse text)
  | .error e => pure (.error e)

/-- The text of a file that need not exist. -/
def readOptional (host : Host m) (path : String) : m (Except TemplateError (Option String)) := do
  match ← host.readText path with
  | .ok text => pure (.ok (some text))
  | .error .notFound => pure (.ok none)
  | .error cause => pure (.error (.read path cause))

end TemplateGate
