/-
# `Gate` — one run of the checks over a template

The template is loaded first.  Only if that succeeds are the
configuration and the abbreviations looked at, in that order, and only if
they are valid too is anything evaluated.  A run that gets that far ends
in a report; one that does not is an environment failure, which names its
stage and its reason.

The abbreviations are a JSON object of texts: what must not be written,
and the full term to write instead.  Nothing but texts is accepted, not
even under a key that a later member replaces.
-/
import TemplateGate.Config.Decode
import TemplateGate.Config.Resolve
import TemplateGate.Evaluation
import TemplateGate.Template.Compiler

namespace TemplateGate

open Text

variable {m : Type → Type} [Monad m]

/-! ## The file of abbreviations -/

namespace Abbreviations

open Json

/-- The shape of a file of abbreviations. -/
def shape : Shape := .dictionary .text

/-- The texts under the keys of a value in normal form. -/
def ofNormal (v : Value) : Dictionary String :=
  .ofList ((v.members?.getD []).map fun e => (e.1, e.2.text?.getD ""))

/-- The abbreviations that a text denotes. -/
def parse (text : String) : Except Fault (Dictionary String) := (shape.parse text).map ofNormal

/-- What is said about a text that is no such file. -/
def invalidMessage (fault : Fault) : String :=
  "abbreviations must be a JSON object of strings: " ++ fault.message

end Abbreviations

/-! ## What a template is judged by -/

/-- What could be read of a file that need not exist. -/
abbrev SideFile := Except TemplateError (Option String)

/-- Why there is no policy to judge by. -/
inductive PolicyError where
  | readConfig (cause : TemplateError)
  | parseConfig
  | resolveConfig (cause : ResolveError)
  | readAbbreviations (cause : TemplateError)
  | parseAbbreviations (fault : Json.Fault)
  deriving DecidableEq, Repr

/-- What went wrong, behind what was being done. -/
def PolicyError.message : PolicyError → String
  | .readConfig cause => "read config: " ++ cause.message
  | .parseConfig => "parse config: the text is not a configuration"
  | .resolveConfig cause => "resolve config: " ++ cause.message
  | .readAbbreviations cause => "read abbreviations: " ++ cause.message
  | .parseAbbreviations fault =>
      "parse abbreviations: " ++ Abbreviations.invalidMessage fault

/-- The configuration in a file; a file that is missing or blank says nothing. -/
def loadConfig : SideFile → Except PolicyError Config
  | .error cause => .error (.readConfig cause)
  | .ok none => .ok .default
  | .ok (some text) =>
      if allBlank text then .ok .default
      else match Config.parse? text with
        | some config => .ok config
        | none => .error .parseConfig

/-- The abbreviations in a file; there are none if it is missing. -/
def loadAbbreviations : SideFile → Except PolicyError (Dictionary String)
  | .error cause => .error (.readAbbreviations cause)
  | .ok none => .ok .empty
  | .ok (some text) =>
      match Abbreviations.parse text with
      | .ok abbreviations => .ok abbreviations
      | .error fault => .error (.parseAbbreviations fault)

/-- The policy of a configuration, in the terms of this module. -/
def resolvePolicy (config : Config) (profile : Option String) : Except PolicyError Policy :=
  match config.resolve profile with
  | .ok policy => .ok policy
  | .error cause => .error (.resolveConfig cause)

/-- What a template is judged by. -/
def loadPolicy (config abbreviations : SideFile) (profile : Option String) :
    Except PolicyError (Policy × Dictionary String) := do
  let policy ← resolvePolicy (← loadConfig config) profile
  pure (policy, ← loadAbbreviations abbreviations)

/-! ## Runs -/

/-- Where a run failed before anything was evaluated. -/
inductive Stage where
  | compile
  | config
  deriving DecidableEq, Repr

/-- How a run ends. -/
inductive Outcome where
  /-- Nothing was found. -/
  | clean (report : Report)
  | violations (report : Report)
  /-- Nothing could be evaluated. -/
  | environmentFailure (stage : Stage) (reason : String)

namespace Outcome

/-- The report of a run that evaluated something. -/
def report? : Outcome → Option Report
  | clean report => some report
  | violations report => some report
  | environmentFailure _ _ => none

/-- The findings of a run. -/
def findings (o : Outcome) : List Finding := o.report?.elim [] (·.findings)

/-- The exit code of a run: 0 only if it is clean. -/
def exitCode : Outcome → UInt32
  | clean _ => 0
  | violations _ => 1
  | environmentFailure _ _ => 1

/-- The outcome of a run with a report. -/
def ofReport (report : Report) : Outcome :=
  match report.verdict with
  | .pass => clean report
  | .fail => violations report

end Outcome

/-- What a run is given. -/
structure Inputs (m : Type → Type) where
  template : String
  compiler : Compiler m
  config : SideFile
  abbreviations : SideFile
  /-- The profile to use whatever the configuration says. -/
  profile : Option String

/-- The report of an evaluated template. -/
def Evaluation.report (e : Evaluation) (template : String) (startedAt finishedAt : Timestamp) :
    Report where
  schema := Report.schemaName
  tool := .current
  startedAt
  finishedAt
  verdict := e.verdict
  findings := e.findings
  data := { e.summary with template := some template }

/-- Runs the checks. -/
def runCheck (host : Host m) (inputs : Inputs m) : m Outcome := do
  let startedAt ← host.now
  match ← loadDocument host inputs.compiler inputs.template with
  | .error e => pure (.environmentFailure .compile e.message)
  | .ok doc =>
      match loadPolicy inputs.config inputs.abbreviations inputs.profile with
      | .error e => pure (.environmentFailure .config e.message)
      | .ok (policy, abbreviations) => do
          let evaluation := evaluate doc abbreviations policy
          let finishedAt ← host.now
          pure (.ofReport (evaluation.report inputs.template startedAt finishedAt))

end TemplateGate
