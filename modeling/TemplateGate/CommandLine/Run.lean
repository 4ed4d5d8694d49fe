/-
# `CommandLine.Run` — carrying out what the arguments ask for

The exit status is 0 for success, 1 for a check that found something or
could not be carried out, and 2 for arguments that are not understood.

`check` prints the line `Compiling …`, evaluates, prints the report,
writes the files that were asked for, and prints annotations, in this
order; a file that cannot be written ends the run.  What goes wrong is
said on the error stream.

The lines of the log are left out.  They go to the error stream too, and at
the default level there is one when a template is not compiled or a
configuration is not valid; what stands here is all that is said under
`--log-level off`.
-/
import TemplateGate.CommandLine.Arguments
import TemplateGate.Explanation
import TemplateGate.Gate
import TemplateGate.Report.Codec
import TemplateGate.Report.Text
import TemplateGate.Report.WorkflowCommand
import TemplateGate.Schema

namespace TemplateGate.CommandLine

open Text

variable {m : Type → Type} [Monad m]

/-- An error with the chain of its causes, the nearest first. -/
structure Complaint where
  text : String
  causes : List String
  deriving DecidableEq, Repr

namespace Complaint

/-- A text with every line after the first indented. -/
def indent (margin : String) (text : String) : String :=
  String.ofList (text.toList.flatMap fun c => if c = '\n' then '\n' :: margin.toList else [c])

/-- One of several causes, with its number. -/
def numbered (number : Nat) (cause : String) : String :=
  let label := numeral number
  "\n" ++ String.ofList (List.replicate (5 - label.length) ' ') ++ label ++ ": " ++
    indent "       " cause

/-- The list of the causes; a single one has no number. -/
def causesText : List String → String
  | [] => ""
  | [cause] => "\n\nCaused by:\n    " ++ indent "    " cause
  | causes => "\n\nCaused by:" ++ String.join (causes.zipIdx.map fun (c, i) => numbered i c)

/-- What is printed about an error. -/
def toText (c : Complaint) : String := "Error: " ++ c.text ++ causesText c.causes ++ "\n"

end Complaint

/-- Makes the directories that lead to a file; a failure is a chain of causes. -/
def makeParent (host : Host m) (path : String) : m (Except (List String) Unit) := do
  match Path.parent? path with
  | none => pure (.ok ())
  | some parent =>
      match ← host.createDirectories parent with
      | .ok () => pure (.ok ())
      | .error e => pure (.error ["create directory: " ++ parent, e.message])

/-- Writes a file, making the directories that lead to it. -/
def writeFile (host : Host m) (path text : String) : m (Except (List String) Unit) := do
  match ← makeParent host path with
  | .error causes => pure (.error causes)
  | .ok () =>
      match ← host.writeText path text with
      | .ok () => pure (.ok ())
      | .error e => pure (.error ["write file: " ++ path, e.message])

/-- Writes a file if one was asked for; a failure is a complaint under a heading. -/
def writeOutput (host : Host m) (heading : String) (path : Option String) (text : String) :
    m (Except Complaint Unit) := do
  match path with
  | none => pure (.ok ())
  | some path =>
      match ← writeFile host path text with
      | .ok () => pure (.ok ())
      | .error causes => pure (.error ⟨heading, causes⟩)

/-- Puts out a report in all the ways that were asked for. -/
def deliver (host : Host m) (options : CheckOptions) (report : Report) :
    m (Except Complaint Unit) := do
  host.print report.toText
  match ← writeOutput host "write report json" options.reportOut report.toJson with
  | .error c => pure (.error c)
  | .ok () =>
      match ← writeOutput host "write markdown" options.markdownOut report.toMarkdown with
      | .error c => pure (.error c)
      | .ok () =>
          match options.annotations with
          | none => pure (.ok ())
          | some cap => do
              host.print (String.join ((report.annotationLines (some cap)).map (· ++ "\n")))
              pure (.ok ())

/-- What is said about a run that could not evaluate anything. -/
def failureText (stage : Stage) (reason : String) : String :=
  (match stage with
    | .compile => "Compilation failed: "
    | .config => "Invalid configuration: ") ++ reason ++ "\n"

/-- Carries out `check`, without the lines of the log. -/
def check (host : Host m) (options : CheckOptions) : m UInt32 := do
  match FrontEnd.ofName? options.compiler with
  | none => do
      host.printError (Complaint.toText
        ⟨"unknown compiler: " ++ options.compiler ++ " (expected az or bicep)", []⟩)
      pure 1
  | some frontEnd => do
      host.print ("Compiling " ++ options.template ++ "...\n")
      let config ← readOptional host options.config
      let abbreviations ← readOptional host options.abbreviations
      let outcome ← runCheck host
        { template := options.template, compiler := frontEnd.command.compiler host,
          config, abbreviations, profile := options.profile }
      match outcome with
      | .environmentFailure stage reason => do
          host.printError (failureText stage reason)
          pure outcome.exitCode
      | .clean report | .violations report => do
          match ← deliver host options report with
          | .ok () => pure outcome.exitCode
          | .error complaint => do
              host.printError complaint.toText
              pure 1

/-- Carries out `explain`. -/
def explain (host : Host m) (identifier : String) : m UInt32 := do
  match Explanation.answer identifier with
  | .ok text => do
      host.print text
      pure 0
  | .error text => do
      host.printError text
      pure 1

/-- Carries out `schema`. -/
def schema (host : Host m) (kind : String) : m UInt32 := do
  match Schema.ofKind? kind with
  | some value => do
      host.print (value.pretty ++ "\n")
      pure 0
  | none => do
      host.printError (Complaint.toText
        ⟨"unknown schema: " ++ kind ++ " (expected report or config)", []⟩)
      pure 1

/-- The name of the tool and its version. -/
def versionLine : String := Tool.current.name ++ " " ++ Tool.current.version ++ "\n"

/-- How the program is used. -/
def usage : String :=
  "Usage: armguard [--log-level LEVEL] <check|explain|schema> [OPTIONS] [ARGUMENT]\n"

/-- Runs the program with the given arguments; the result is its exit status. -/
def run (host : Host m) (arguments : List String) : m UInt32 := do
  match Request.ofArguments? arguments with
  | some (.check options) => check host options
  | some (.explain identifier) => explain host identifier
  | some (.schema kind) => schema host kind
  | some .version => do
      host.print versionLine
      pure 0
  | some .help => do
      host.print usage
      pure 0
  | none => do
      host.printError usage
      pure 2

end TemplateGate.CommandLine
