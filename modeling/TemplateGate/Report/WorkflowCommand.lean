/-
# `Report.WorkflowCommand` — findings as annotations of a build

A build service shows a line of the form

    ::error file=F,title=T::M

as an annotation of the file.  The characters that would end a property,
the properties or the line are written as a percent sign and two
hexadecimal digits, and so is the percent sign itself, so that a line
holds one command and reads back as what it was made of.

A compiled template knows nothing of lines, so an annotation points at
the template as a whole.
-/
import TemplateGate.Report.Basic

namespace TemplateGate

/-- The command that annotates a file with an error. -/
structure WorkflowCommand where
  file : Option String
  title : String
  message : String
  deriving DecidableEq, Repr

namespace WorkflowCommand

/-- A character of the message of a command. -/
def escapeMessageChar (c : Char) : List Char :=
  if c = '%' then ['%', '2', '5']
  else if c = '\r' then ['%', '0', 'D']
  else if c = '\n' then ['%', '0', 'A']
  else [c]

/-- A character of a property of a command. -/
def escapePropertyChar (c : Char) : List Char :=
  if c = ':' then ['%', '3', 'A']
  else if c = ',' then ['%', '2', 'C']
  else escapeMessageChar c

/-- A text as the message of a command. -/
def escapeMessage (s : String) : String := String.ofList (s.toList.flatMap escapeMessageChar)

/-- A text as a property of a command. -/
def escapeProperty (s : String) : String := String.ofList (s.toList.flatMap escapePropertyChar)

/-- The properties of a command, with their names. -/
def properties (a : WorkflowCommand) : List (String × String) :=
  (a.file.map fun f => ("file", f)).toList ++ [("title", a.title)]

/-- One property. -/
def printProperty (p : String × String) : String := p.1 ++ "=" ++ escapeProperty p.2

/-- The line of a command. -/
def line (a : WorkflowCommand) : String :=
  "::error " ++ String.intercalate "," (a.properties.map printProperty) ++ "::" ++
    escapeMessage a.message

end WorkflowCommand

/-- The message of the annotation of a finding. -/
def Finding.annotationMessage (f : Finding) : String :=
  "[" ++ f.code ++ "] " ++ f.message ++
    f.resource.elim "" fun r => " (" ++ r.type ++ " '" ++ r.name ++ "')"

namespace Report

/-- The annotations of a report, one per finding. -/
def annotations (r : Report) : List WorkflowCommand :=
  r.findings.map fun f => ⟨r.data.template, f.checkId, f.annotationMessage⟩

/-- The lines of the annotations, up to a cap. -/
def annotationLines (r : Report) (cap : Option Nat) : List String :=
  let lines := r.annotations.map WorkflowCommand.line
  match cap with
  | some most => lines.take most
  | none => lines

end Report

end TemplateGate
