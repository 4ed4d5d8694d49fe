/-
# `Report.Text` — the report for readers

On the terminal it is either one line that says that all is well, or a
header and the messages of the findings, numbered from one.  A message is
printed as it is, with whatever line feeds it holds.

As a document it has a title, the verdict and the numbers as a list, and
the findings as a numbered list, with the resource in parentheses where
there is one and the help on a line of its own.
-/
import TemplateGate.Report.Basic

namespace TemplateGate.Report

open Text

/-! ## For the terminal -/

/-- The line of a run without findings. -/
def cleanMarker : String := "✅ All compliance checks passed!"

/-- The line above the findings. -/
def violationsHeader : String := "❌ Compliance Issues Found:"

/-- The line of the finding with a number. -/
def textItem (number : Nat) (f : Finding) : String := numeral number ++ ". " ++ f.message ++ "\n"

/-- The report for the terminal. -/
def toText (r : Report) : String :=
  if r.findings.isEmpty then cleanMarker ++ "\n"
  else violationsHeader ++ "\n" ++
    String.join ((r.findings.zipIdx 1).map fun (f, number) => textItem number f)

/-! ## As a document -/

/-- A text between backticks. -/
def quoted (s : String) : String := "`" ++ s ++ "`"

/-- The verdict in capitals. -/
def verdictMark : Verdict → String
  | .pass => "PASS"
  | .fail => "FAIL"

/-- Where a finding was made. -/
def whereabouts (r : ResourceRef) : String := " (" ++ quoted r.type ++ " " ++ quoted r.name ++ ")"

/-- The line of help below a finding. -/
def helpLine (help : String) : String := "   - help: " ++ help ++ "\n"

/-- The finding with a number. -/
def markdownItem (number : Nat) (f : Finding) : String :=
  numeral number ++ ". " ++ quoted f.checkId ++ " / " ++ quoted f.code ++ ": " ++ f.message ++
    (f.resource.elim "" whereabouts) ++ "\n" ++ (f.help.elim "" helpLine)

/-- The lines above the findings. -/
def markdownHead (r : Report) : String :=
  "# Armguard report\n\n- Verdict: **" ++ verdictMark r.verdict ++ "**\n" ++
    (r.data.template.elim "" fun t => "- Template: " ++ quoted t ++ "\n") ++
    "- Resources scanned: " ++ numeral r.data.resourcesScanned.toNat ++
    "\n- Findings: " ++ numeral r.data.findingsTotal.toNat ++ "\n\n"

/-- The report as a document. -/
def toMarkdown (r : Report) : String :=
  markdownHead r ++
    (if r.findings.isEmpty then "No findings.\n"
     else "## Findings\n\n" ++
      String.join ((r.findings.zipIdx 1).map fun (f, number) => markdownItem number f))

end TemplateGate.Report
