/-
# `Evaluation` — a document judged by a policy

The enabled checks run in their fixed order and their findings are put
one after the other, without dropping or reordering any.  A run with a
finding fails; one without passes.

Two counts are kept.  The summary states numbers that saturate at the
greatest word of 32 bits.  The tally counts by check and adds words, which
starts again at zero after 2³² findings of one check.
-/
import TemplateGate.Cost
import TemplateGate.Naming
import TemplateGate.Policy
import TemplateGate.Report.Basic
import TemplateGate.Security.Builtin

namespace TemplateGate

/-- The findings of one check, whether it is enabled or not. -/
def Check.findings (c : Check) (doc : Document) (abbreviations : Dictionary String)
    (oversized : Dictionary String) : List Finding :=
  match c with
  | .naming => Naming.findings abbreviations doc
  | .security => Security.Registry.builtin.findings doc
  | .cost => Cost.findings oversized doc

/-- The findings of the checks, one check after the other in their order. -/
def inOrder (findingsOf : Check → List Finding) : List Finding := Check.all.flatMap findingsOf

/-- The findings of the enabled checks, check by check. -/
def findings (doc : Document) (abbreviations : Dictionary String) (policy : Policy) :
    List Finding :=
  inOrder fun c =>
    if policy.enables c then c.findings doc abbreviations policy.oversized else []

/-- How many findings each check has. -/
structure Tally where
  naming : UInt32
  security : UInt32
  cost : UInt32
  deriving DecidableEq, Repr

namespace Tally

/-- The tally before the first finding. -/
def zero : Tally := ⟨0, 0, 0⟩

/-- The tally with one more finding of a check. -/
def count (t : Tally) : Check → Tally
  | .naming => { t with naming := t.naming + 1 }
  | .security => { t with security := t.security + 1 }
  | .cost => { t with cost := t.cost + 1 }

/-- The number of findings of a check. -/
def get (t : Tally) : Check → UInt32
  | .naming => t.naming
  | .security => t.security
  | .cost => t.cost

/-- The tally with one more finding; an unknown check is not counted. -/
def add (t : Tally) (f : Finding) : Tally :=
  match Check.ofId? f.checkId with
  | some c => t.count c
  | none => t

/-- The tally of a list of findings. -/
def ofFindings (fs : List Finding) : Tally := fs.foldl add zero

end Tally

/-- A judged document. -/
structure Evaluation where
  verdict : Verdict
  findings : List Finding
  summary : Summary
  tally : Tally

/-- Judges a document by a policy. -/
def evaluate (doc : Document) (abbreviations : Dictionary String) (policy : Policy) :
    Evaluation :=
  let fs := findings doc abbreviations policy
  { verdict := .ofFindings fs
    findings := fs
    summary := {
      template := none
      profile := policy.profile
      resourcesScanned := saturate doc.length
      abbreviationsLoaded := saturate abbreviations.size
      checksRun := policy.enabled.map Check.id
      findingsTotal := saturate fs.length }
    tally := .ofFindings fs }

end TemplateGate
