/-
# `Resource` — what a compiled template declares

A document is the list of the resources of a template in the order of
declaration.  The checks look at four parts of a resource: its name, its
type, its properties and its SKU.  A part that is missing or of the wrong
kind has become empty or absent before it gets here, so nothing that is
asked of a resource can fail; it can only be "not set".
-/
import TemplateGate.Json.Value

namespace TemplateGate

open Json

/-- A declared resource. -/
structure Resource where
  name : String
  type : String
  properties : Members
  sku : Option Members
  deriving Repr

/-- The resources of a template, in order. -/
abbrev Document := List Resource

namespace Resource

/-- The value at the end of a path of keys through nested objects. -/
def descend (members : Members) : List String → Option Value
  | [] => none
  | [key] => members.get? key
  | key :: rest =>
      match members.get? key with
      | some (.object inner) => descend inner rest
      | _ => none

/-- The property at a path; none when a key is missing, when something on
the way is no object, and when the path is empty. -/
def property? (r : Resource) (path : List String) : Option Value := descend r.properties path

/-- The name of the SKU, if it is a text. -/
def skuName? (r : Resource) : Option String :=
  (r.sku.bind fun sku => sku.get? "name").bind Value.text?

end Resource

end TemplateGate
