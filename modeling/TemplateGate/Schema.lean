/-
# `Schema` — JSON Schemas of reports and configurations

The two documents that other tools read and write are described by a
schema each, in the 2020-12 dialect.  A schema is put together from the
descriptions of its parts and printed like any other value; parts that
occur more than once are defined under `$defs` and referred to.
-/
import TemplateGate.Json.Printer

namespace TemplateGate.Schema

open Json

/-- A text under a key. -/
def entry (key text : String) : String × Value := (key, .string text)

/-- A sentence about a part, in front of its description. -/
def described (about : String) (part : Members) : Members := entry "description" about :: part

/-- A default, behind the description of a part. -/
def withDefault (value : Value) (part : Members) : Members := part ++ [("default", value)]

/-- A reference to a definition. -/
def reference (name : String) : Members := [entry "$ref" ("#/$defs/" ++ name)]

/-- Values of one type. -/
def typed (name : String) : Members := [entry "type" name]

/-- Values of one type, and null. -/
def nullable (name : String) : Members :=
  [("type", .array [.string name, .string "null"])]

/-- Integers of 32 bits without sign. -/
def word : Members :=
  typed "integer" ++ [entry "format" "uint32", ("minimum", .ofNat 0)]

/-- Lists of values. -/
def list (item : Members) : Members := typed "array" ++ [("items", .object item)]

/-- Maps from texts to values. -/
def dictionary (item : Members) : Members :=
  typed "object" ++ [("additionalProperties", .object item)]

/-- Properties with the descriptions of their values. -/
def properties (parts : List (String × Members)) : String × Value :=
  ("properties", .object (parts.map fun p => (p.1, .object p.2)))

/-- The properties that have to be there. -/
def required (names : List String) : String × Value :=
  ("required", .array (names.map .string))

/-- Definitions that references name. -/
def definitions (parts : List (String × Members)) : String × Value :=
  ("$defs", .object (parts.map fun p => (p.1, .object p.2)))

/-- The head of a schema. -/
def head (title about : String) : Members :=
  [entry "$schema" "https://json-schema.org/draft/2020-12/schema", entry "title" title,
    entry "description" about]

/-- The tool that made a report. -/
def tool : Members :=
  typed "object" ++ [properties [("name", typed "string"), ("version", typed "string")],
    required ["name", "version"]]

/-- The verdict of a run. -/
def verdict : Members :=
  typed "string" ++ [("enum", .array [.string "pass", .string "fail"])]

/-- A reference to a resource. -/
def resourceRef : Members :=
  described "Points a finding back at the resource it was derived from." <|
    typed "object" ++ [
      properties [
        ("index", described "Zero-based position in the document's `resources` sequence." word),
        ("name", typed "string"), ("type", typed "string")],
      required ["index", "name", "type"]]

/-- A finding. -/
def finding : Members :=
  described ("A single policy violation.\n\n" ++
      "All findings carry equal weight: any finding fails the run.") <|
    typed "object" ++ [
      properties [
        ("check_id", typed "string"), ("code", typed "string"), ("message", typed "string"),
        ("resource", [("anyOf",
          .array [.object (reference "ResourceRef"), .object (typed "null")])]),
        ("help", nullable "string"),
        ("fingerprint", described
          ("Stable identifier intended for dedup and trending. A hash of:\n" ++
            "`check_id + code + resource index + resource name + salient detail`.")
          (nullable "string")),
        ("data", described
          "Check-specific structured payload (kept open-ended for forward compatibility)." [])],
      required ["check_id", "code", "message"]]

/-- The summary of a run. -/
def summary : Members :=
  described "Armguard-specific summary payload for the report." <|
    typed "object" ++ [
      properties [
        ("template", nullable "string"), ("profile", typed "string"),
        ("resources_scanned", word), ("abbreviations_loaded", word),
        ("checks_run", described "Check IDs that ran, in run order."
          (withDefault (.array []) (list (typed "string")))),
        ("findings_total", word)],
      required ["profile", "resources_scanned", "abbreviations_loaded", "findings_total"]]

/-- The schema of reports. -/
def report : Value := .object (
  head "ReportEnvelope"
    ("A generic report envelope.\n\nKeeping this generic allows tool-specific data while " ++
      "still enforcing a stable outer shape.") ++
  typed "object" ++ [
    properties [
      ("schema", described "Versioned schema identifier for the envelope shape." (typed "string")),
      ("tool", reference "ToolMeta"), ("started_at", typed "string"),
      ("finished_at", typed "string"), ("verdict", reference "Verdict"),
      ("findings", list (reference "Finding")), ("data", reference "ArmguardData")],
    required ["schema", "tool", "started_at", "finished_at", "verdict", "findings", "data"],
    definitions [("ToolMeta", tool), ("Verdict", verdict), ("Finding", finding),
      ("ResourceRef", resourceRef), ("ArmguardData", summary)]])

/-- What a configuration says about one check. -/
def checkSetting : Members :=
  typed "object" ++ [
    properties [("enabled", described "Override preset enable/disable." (nullable "boolean"))]]

/-- What a configuration says about the table of SKUs. -/
def costSetting : Members :=
  typed "object" ++ [
    properties [
      ("replace_default_skus", described
        "Drop the built-in SKU table and use only `oversized_skus`."
        (withDefault (.boolean false) (typed "boolean"))),
      ("oversized_skus", described
        "SKU name -> recommendation, merged over the built-in table."
        (withDefault (.object []) (dictionary (typed "string"))))]]

/-- The schema of configurations. -/
def config : Value := .object (
  head "ArmguardConfigV1"
    ("`armguard.toml` schema v1.\n\nThis is a *user-facing* config model: it is " ++
      "intentionally permissive so forward-compat is easy.") ++
  typed "object" ++ [
    properties [
      ("schema", described "Optional schema string for tooling (`armguard.config.v1`)."
        (nullable "string")),
      ("profile", described "Preset profile: `strict` (default) or `security-only`."
        (nullable "string")),
      ("checks", described "Map of check_id -> config."
        (withDefault (.object []) (dictionary (reference "CheckConfig")))),
      ("cost", withDefault
        (.object [("replace_default_skus", .boolean false), ("oversized_skus", .object [])])
        (reference "CostConfig"))],
    definitions [("CheckConfig", checkSetting), ("CostConfig", costSetting)]])

/-- The schema of the document of a given kind. -/
def ofKind? : String → Option Value
  | "report" => some report
  | "config" => some config
  | _ => none

end TemplateGate.Schema
