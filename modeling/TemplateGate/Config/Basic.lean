/-
# `Config.Basic` — what a configuration file can say

Everything in a configuration is optional.  It may name its schema and a
profile, switch single checks on or off, and extend or replace the table
of oversized SKUs.  Keys of `checks` are kept as they are written, also
those that name no check; whether they do is a question for resolution.
-/
import TemplateGate.Dictionary
import TemplateGate.Json.Value

namespace TemplateGate

open Json

/-- What a configuration says about one check. -/
structure CheckSetting where
  enabled : Option Bool
  deriving DecidableEq, Repr

/-- What a configuration says about the table of oversized SKUs. -/
structure CostSetting where
  replaceDefaults : Bool
  oversized : Dictionary String
  deriving DecidableEq

/-- The content of a configuration file. -/
structure Config where
  schema : Option String
  profile : Option String
  checks : Dictionary CheckSetting
  cost : CostSetting
  deriving DecidableEq

namespace Config

/-- The setting that says nothing about the table. -/
def defaultCost : CostSetting := ⟨false, .empty⟩

/-- The configuration that says nothing. -/
def default : Config := ⟨none, none, .empty, defaultCost⟩

instance : Inhabited Config := ⟨default⟩

end Config

/-- A map from texts to texts as JSON, in the order of the keys. -/
def Dictionary.toValue (d : Dictionary String) : Value :=
  .object (d.entries.map fun e => (e.1, .string e.2))

namespace Config

/-- A setting of a check as JSON. -/
def settingValue (s : CheckSetting) : Value :=
  .object (s.enabled.map fun b => ("enabled", .boolean b)).toList

/-- A configuration as JSON. -/
def toValue (c : Config) : Value :=
  .object (
    (c.schema.map fun s => ("schema", .string s)).toList ++
      (c.profile.map fun s => ("profile", .string s)).toList ++
      [("checks", .object (c.checks.entries.map fun e => (e.1, settingValue e.2))),
        ("cost", .object [("replace_default_skus", .boolean c.cost.replaceDefaults),
          ("oversized_skus", c.cost.oversized.toValue)])])

end Config

end TemplateGate
