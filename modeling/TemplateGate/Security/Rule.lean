/-
# `Security.Rule` — hardening rules and the registry that holds them

A rule says which types of resources it judges and what is wrong with
one.  A registry is a list of rules; a resource is judged by the first
rule that accepts its type, and by no other, so a rule appended to a
registry can add findings but never change one.

The payload of a finding starts with the members `resource`, `rule` and
`type`.  What a rule adds to it is merged in: a key that is there already
keeps its place and takes the value of the rule.
-/
import TemplateGate.Finding

namespace TemplateGate.Security

open Json

/-- A hardening failure, before it is tied to a resource. -/
structure Violation where
  code : String
  message : String
  help : String
  /-- What the rule adds to the payload; only an object adds anything. -/
  data : Value
  deriving Repr

/-- A hardening rule. -/
structure Rule where
  /-- A short label for the payload of findings. -/
  kind : String
  appliesTo : String → Bool
  violations : Resource → List Violation

/-- Rules, the earlier ones taking precedence. -/
abbrev Registry := List Rule

/-- The identity of a finding about a violation. -/
def identity (index : Nat) (name code : String) : Identity :=
  ⟨Check.security.id, code, index, name, none⟩

/-- The payload of a finding. -/
def payload (kind : String) (r : Resource) (extra : Value) : Members :=
  Members.setAll
    [("resource", .string r.name), ("rule", .string kind), ("type", .string r.type)]
    (extra.members?.getD [])

/-- The finding about a violation by the resource at a position. -/
def finding (kind : String) (index : Nat) (r : Resource) (v : Violation) : Finding where
  checkId := Check.security.id
  code := v.code
  message := v.message
  resource := some (r.ref index)
  help := some v.help
  fingerprint := some (identity index r.name v.code).fingerprint
  data := .object (payload kind r v.data)

namespace Registry

/-- The rules followed by one more. -/
def withRule (rules : Registry) (rule : Rule) : Registry := rules ++ [rule]

/-- The first rule that accepts a type. -/
def ruleFor? (rules : Registry) (type : String) : Option Rule :=
  rules.find? fun rule => rule.appliesTo type

/-- The findings about one resource. -/
def findingsAt (rules : Registry) (index : Nat) (r : Resource) : List Finding :=
  match rules.ruleFor? r.type with
  | some rule => (rule.violations r).map (finding rule.kind index r)
  | none => []

/-- The findings about a document. -/
def findings (rules : Registry) (doc : Document) : List Finding :=
  doc.zipIdx.flatMap fun (r, index) => findingsAt rules index r

end Registry

end TemplateGate.Security
