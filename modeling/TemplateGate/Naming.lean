/-
# `Naming` — abbreviations in the names of resources

A name that contains a banned abbreviation has to contain the full term
too.  Containment is plain: an abbreviation counts inside a longer word,
and case matters.  Findings come resource by resource, and for each
resource in the order of the abbreviations.
-/
import TemplateGate.Dictionary
import TemplateGate.Finding
import TemplateGate.Text.Basic

namespace TemplateGate.Naming

open Json Text

/-- Whether a name contains an abbreviation without its full term. -/
def abbreviates (name abbreviation full : String) : Bool :=
  occursIn abbreviation name && !occursIn full name

/-- The identity of a finding about an abbreviation. -/
def identity (index : Nat) (name abbreviation : String) : Identity :=
  ⟨Check.naming.id, Code.abbreviationWithoutFullTerm.text, index, name, some abbreviation⟩

/-- The finding about an abbreviation in the name of the resource at a position. -/
def finding (index : Nat) (r : Resource) (abbreviation full : String) : Finding where
  checkId := Check.naming.id
  code := Code.abbreviationWithoutFullTerm.text
  message := "Resource '" ++ r.name ++ "': Use '" ++ full ++ "' instead of '" ++ abbreviation ++ "'"
  resource := some (r.ref index)
  help := some ("Rename the resource to spell out '" ++ full ++ "'.")
  fingerprint := some (identity index r.name abbreviation).fingerprint
  data := .object [("abbreviation", .string abbreviation), ("full_term", .string full),
    ("resource", .string r.name)]

/-- The findings about one resource. -/
def findingsAt (abbreviations : Dictionary String) (index : Nat) (r : Resource) : List Finding :=
  (abbreviations.entries.filter fun e => abbreviates r.name e.1 e.2).map fun e =>
    finding index r e.1 e.2

/-- The findings about a document. -/
def findings (abbreviations : Dictionary String) (doc : Document) : List Finding :=
  doc.zipIdx.flatMap fun (r, index) => findingsAt abbreviations index r

end TemplateGate.Naming
