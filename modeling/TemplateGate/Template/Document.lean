/-
# `Template.Document` — the resources of a compiled template

The root of a template is an object, and its member `resources` an array
of resources, an object with resources under symbolic names, `null`, or
missing; nothing else will do.  What stands in it is taken as it comes:
entries that are no objects are skipped, a name or type that is no text
is empty, and so are properties that are no object.
-/
import TemplateGate.Json.Reader
import TemplateGate.Resource
import TemplateGate.Template.Failure

namespace TemplateGate

open Json

/-- The text under a key, empty if there is none. -/
def textAt (key : String) (members : Members) : String :=
  ((members.get? key).bind Value.text?).getD ""

/-- The resource that the members of an entry describe. -/
def Resource.ofMembers (members : Members) : Resource where
  name := textAt "name" members
  type := textAt "type" members
  properties := ((members.get? "properties").bind Value.members?).getD []
  sku := (members.get? "sku").bind Value.members?

/-- The resource of an entry, if it is an object. -/
def Resource.ofValue? (v : Value) : Option Resource := v.members?.map Resource.ofMembers

namespace Document

/-- The entries under `resources`; none if they have the wrong form. -/
def entries? (root : Members) : Option (List Value) :=
  match root.get? "resources" with
  | none => some []
  | some .null => some []
  | some (.array items) => some items
  | some (.object members) => some (members.map (·.2))
  | some _ => none

/-- The document whose entries are given. -/
def ofEntries (entries : List Value) : Document := entries.filterMap Resource.ofValue?

/-- The document that a compiled template describes. -/
def ofValue (root : Value) : Except TemplateError Document :=
  match root with
  | .object members =>
      match entries? members with
      | some entries => .ok (ofEntries entries)
      | none => .error (.malformed "`resources` is neither an array nor an object")
  | _ => .error (.malformed "root is not a JSON object")

/-- The document that the text of a compiled template describes. -/
def parse (text : String) : Except TemplateError Document :=
  match Json.parse text with
  | .ok root => ofValue root
  | .error fault => .error (.invalidJson fault)

end Document

end TemplateGate
