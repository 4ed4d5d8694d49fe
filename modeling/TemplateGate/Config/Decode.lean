/-
# `Config.Decode` — configurations from TOML and from JSON

A configuration file is TOML; the same content is accepted as JSON, where
`null` stands for what is not set.  Unknown keys are ignored in both, but
in TOML what is under them is read all the same, so its numbers have to
be readable.

Where TOML holds a record it may be written as an array of its fields in
order, the last ones left out and further items not even read; and a
moment counts as a record without any field, except as a map of texts,
where its text stands under a reserved key.
-/
import TemplateGate.Config.Basic
import TemplateGate.Json.Shape
import TemplateGate.Toml.Reader

namespace TemplateGate.Config

/-! ## From TOML -/

/-- The entries under the fields of a record. -/
def recordOf? (fields : List String) : Toml.Value → Option (List (String × Toml.Value))
  | .table entries =>
      if entries.all fun e => e.1 ∈ fields || e.2.isReadable then some entries else none
  | .array items => some (fields.zip items)
  | .moment _ => some []
  | _ => none

/-- The key under which the text of a moment stands in a map. -/
def momentKey : String := "$__toml_private_datetime"

/-- The entries of a map. -/
def mapOf? : Toml.Value → Option (List (String × Toml.Value))
  | .table entries => some entries
  | .moment m => some [(momentKey, .string m.toText)]
  | _ => none

/-- The value of a field, which may be missing. -/
def fieldOf? {α : Type} (read : Toml.Value → Option α) (fields : List (String × Toml.Value))
    (name : String) : Option (Option α) :=
  match Dictionary.lookup name fields with
  | none => some none
  | some v => (read v).map some

/-- A text. -/
def textOf? : Toml.Value → Option String
  | .string s => some s
  | _ => none

/-- A truth value. -/
def flagOf? : Toml.Value → Option Bool
  | .boolean b => some b
  | _ => none

/-- What is said about one check. -/
def settingOf? (v : Toml.Value) : Option CheckSetting := do
  let fields ← recordOf? ["enabled"] v
  pure ⟨← fieldOf? flagOf? fields "enabled"⟩

/-- A map with values of one kind. -/
def dictionaryOf? {α : Type} (read : Toml.Value → Option α) (v : Toml.Value) :
    Option (Dictionary α) := do
  let entries ← mapOf? v
  let values ← entries.mapM fun (e : String × Toml.Value) => (read e.2).map fun a => (e.1, a)
  pure (.ofList values)

/-- What is said about the table of SKUs. -/
def costOf? (v : Toml.Value) : Option CostSetting := do
  let fields ← recordOf? ["replace_default_skus", "oversized_skus"] v
  pure {
    replaceDefaults := (← fieldOf? flagOf? fields "replace_default_skus").getD false
    oversized := (← fieldOf? (dictionaryOf? textOf?) fields "oversized_skus").getD .empty }

/-- The configuration that the table of a document describes. -/
def ofTable? (entries : List (String × Toml.Value)) : Option Config := do
  let fields ← recordOf? ["schema", "profile", "checks", "cost"] (.table entries)
  pure {
    schema := ← fieldOf? textOf? fields "schema"
    profile := ← fieldOf? textOf? fields "profile"
    checks := (← fieldOf? (dictionaryOf? settingOf?) fields "checks").getD .empty
    cost := (← fieldOf? costOf? fields "cost").getD defaultCost }

/-- The configuration that a text denotes. -/
def parse? (text : String) : Option Config := (Toml.parse? text).bind ofTable?

/-! ## From JSON -/

open Json

/-- The shape of a configuration. -/
def shape : Shape := .record
  [("schema", .omittable, .text), ("profile", .omittable, .text),
    ("checks", .default (.object []), .dictionary (.record [("enabled", .omittable, .flag)])),
    ("cost", .default (.object [("replace_default_skus", .boolean false),
      ("oversized_skus", .object [])]),
      .record [("replace_default_skus", .default (.boolean false), .flag),
        ("oversized_skus", .default (.object []), .dictionary .text)])]

/-- The texts under the keys of an object. -/
def textsOf? (v : Value) : Option (Dictionary String) := do
  let entries ← (← v.members?).mapM fun (m : String × Value) => m.2.text?.map fun s => (m.1, s)
  pure (.ofList entries)

/-- A configuration from the normal form of its shape. -/
def ofNormal? (v : Value) : Option Config := do
  let cost ← v.get? "cost"
  pure {
    schema := (v.get? "schema").bind Value.text?
    profile := (v.get? "profile").bind Value.text?
    checks := .ofList ((← (← v.get? "checks").members?).map fun (m : String × Value) =>
      (m.1, ⟨(m.2.get? "enabled").bind Value.flag?⟩))
    cost := {
      replaceDefaults := ← (cost.get? "replace_default_skus").bind Value.flag?
      oversized := ← (cost.get? "oversized_skus").bind textsOf? } }

/-- The configuration that a value describes. -/
def ofValue? (v : Value) : Option Config := (shape.fit v).bind ofNormal?

end TemplateGate.Config
