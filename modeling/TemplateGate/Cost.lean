/-
# `Cost` — SKUs that are too large

A table names SKUs known to be oversized and what to use instead.  A
resource is reported when the name of its SKU is a key of the table,
letter by letter; a resource without a SKU, or with one the table does
not know, is not.
-/
import TemplateGate.Dictionary
import TemplateGate.Finding

namespace TemplateGate.Cost

open Json

/-- The identity of a finding about a SKU. -/
def identity (index : Nat) (name sku : String) : Identity :=
  ⟨Check.cost.id, Code.oversizedSku.text, index, name, some sku⟩

/-- The finding about the SKU of the resource at a position. -/
def finding (index : Nat) (r : Resource) (sku recommendation : String) : Finding where
  checkId := Check.cost.id
  code := Code.oversizedSku.text
  message := "Resource " ++ r.type ++ ": " ++ recommendation
  resource := some (r.ref index)
  help := some ("SKU '" ++ sku ++ "' is oversized for non-production workloads.")
  fingerprint := some (identity index r.name sku).fingerprint
  data := .object [("recommendation", .string recommendation), ("resource", .string r.name),
    ("sku", .string sku), ("type", .string r.type)]

/-- The finding about one resource, if there is one. -/
def findingAt? (oversized : Dictionary String) (index : Nat) (r : Resource) : Option Finding := do
  let sku ← r.skuName?
  let recommendation ← oversized.get? sku
  pure (finding index r sku recommendation)

/-- The findings about a document. -/
def findings (oversized : Dictionary String) (doc : Document) : List Finding :=
  doc.zipIdx.filterMap fun (r, index) => findingAt? oversized index r

end TemplateGate.Cost
