/-
# `Report.Basic` — what a run reports

A report wraps the findings of a run in an envelope: the schema it
follows, the tool that made it, the times at which the run started and
finished, the verdict, and a summary of what was looked at.  The envelope
leaves the form of the summary open, so that a reader who does not know
it can still read the rest.
-/
import TemplateGate.Finding
import TemplateGate.Timestamp

namespace TemplateGate

/-- The verdict of a run. -/
inductive Verdict where
  | pass
  | fail
  deriving DecidableEq, Repr

namespace Verdict

/-- The name of a verdict in reports. -/
def name : Verdict → String
  | pass => "pass"
  | fail => "fail"

/-- The verdict with a name. -/
def ofName? (s : String) : Option Verdict := [pass, fail].find? fun v => v.name = s

@[simp] theorem ofName?_name (v : Verdict) : ofName? v.name = some v := by cases v <;> decide

/-- Every finding is a failure. -/
def ofFindings (findings : List Finding) : Verdict := if findings.isEmpty then pass else fail

end Verdict

/-- The tool that made a report. -/
structure Tool where
  name : String
  version : String
  deriving DecidableEq, Repr

/-- What a run looked at, in numbers. -/
structure Summary where
  template : Option String
  profile : String
  resourcesScanned : UInt32
  abbreviationsLoaded : UInt32
  /-- The identifiers of the checks that ran, in order. -/
  checksRun : List String
  findingsTotal : UInt32
  deriving DecidableEq, Repr

instance : Inhabited Summary := ⟨⟨none, "", 0, 0, [], 0⟩⟩

/-- The envelope around what a tool reports; `data` is the part that
differs from tool to tool. -/
structure Envelope (δ : Type) where
  schema : String
  tool : Tool
  startedAt : Timestamp
  finishedAt : Timestamp
  verdict : Verdict
  findings : List Finding
  data : δ

/-- The report of a run. -/
abbrev Report := Envelope Summary

/-- The name of the form that reports have. -/
def Report.schemaName : String := "armguard.report.v1"

/-- The tool that makes the reports. -/
def Tool.current : Tool := ⟨"armguard", "0.1.0"⟩

end TemplateGate
