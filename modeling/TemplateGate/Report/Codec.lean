/-
# `Report.Codec` — the JSON form of reports and their parts

For each type of a report a `Codec` holds its JSON form three times over:
the shape that readers accept, the value made of a datum, and the datum
made of a value in the normal form of the shape.  Readers accept more
than is ever written: unknown members, members in any order, `null` for
what is unset, arrays for records.

`same` is equality of data.  Payloads are compared as JSON values and
times as instants; everything else is compared as it stands.
-/
import TemplateGate.Json.Printer
import TemplateGate.Json.Shape
import TemplateGate.Report.Basic

namespace TemplateGate

open Json

/-- The JSON form of a type. -/
structure Codec (α : Type) where
  shape : Shape
  ofNormal? : Value → Option α
  toValue : α → Value
  same : α → α → Bool

namespace Codec

variable {α : Type}

/-- The datum that a text denotes. -/
def parse (c : Codec α) (text : String) : Except Fault α := do
  match c.ofNormal? (← c.shape.parse text) with
  | some a => .ok a
  | none => .error .mistyped

/-- The datum that a value denotes. -/
def fit? (c : Codec α) (v : Value) : Option α := (c.shape.fit v).bind c.ofNormal?

/-- The text of a datum without white space. -/
def compact (c : Codec α) (a : α) : String := (c.toValue a).compact

/-- The text of a datum, one item a line, with a line feed at the end. -/
def document (c : Codec α) (a : α) : String := (c.toValue a).pretty ++ "\n"

end Codec

/-- The word that a value denotes. -/
def word? : Value → Option UInt32
  | .number (.integer n _) => if 0 ≤ n ∧ n < 4294967296 then some (UInt32.ofNat n.toNat) else none
  | _ => none

/-- A text that is not set if its member is missing. -/
def textAt? (key : String) (v : Value) : Option String := (v.get? key).bind Value.text?

/-! ## Resource references -/

namespace ResourceRef

/-- The shape of a resource reference. -/
def shape : Shape := .record
  [("index", .required, .word), ("name", .required, .text), ("type", .required, .text)]

/-- A resource reference from its normal form. -/
def ofNormal? (v : Value) : Option ResourceRef := do
  pure ⟨← (v.get? "index").bind word?, ← textAt? "name" v, ← textAt? "type" v⟩

/-- The JSON form of resource references. -/
def codec : Codec ResourceRef := ⟨shape, ofNormal?, toValue, fun a b => a == b⟩

end ResourceRef

/-! ## Findings -/

namespace Finding

/-- The shape of a finding. -/
def shape : Shape := .record
  [("check_id", .required, .text), ("code", .required, .text), ("message", .required, .text),
    ("resource", .optional, ResourceRef.shape), ("help", .optional, .text),
    ("fingerprint", .optional, .text), ("data", .default .null, .any)]

/-- A finding from its normal form. -/
def ofNormal? (v : Value) : Option Finding := do
  let resource ← match v.get? "resource" with
    | none => pure none
    | some r => (ResourceRef.ofNormal? r).map some
  pure {
    checkId := ← textAt? "check_id" v
    code := ← textAt? "code" v
    message := ← textAt? "message" v
    resource
    help := textAt? "help" v
    fingerprint := textAt? "fingerprint" v
    data := (v.get? "data").getD .null }

/-- Equality of findings. -/
def same (a b : Finding) : Bool :=
  a.checkId == b.checkId && a.code == b.code && a.message == b.message &&
    a.resource == b.resource && a.help == b.help && a.fingerprint == b.fingerprint &&
    a.data.same b.data

/-- The JSON form of findings. -/
def codec : Codec Finding := ⟨shape, ofNormal?, toValue, same⟩

end Finding

/-! ## Verdicts, tools and summaries -/

/-- The JSON form of verdicts. -/
def Verdict.codec : Codec Verdict where
  shape := .choice [pass.name, fail.name]
  ofNormal? v := v.text?.bind ofName?
  toValue v := .string v.name
  same a b := a == b

namespace Tool

/-- The shape of a tool. -/
def shape : Shape := .record [("name", .required, .text), ("version", .required, .text)]

/-- A tool as JSON. -/
def toValue (t : Tool) : Value := .object [("name", .string t.name), ("version", .string t.version)]

/-- A tool from its normal form. -/
def ofNormal? (v : Value) : Option Tool := do pure ⟨← textAt? "name" v, ← textAt? "version" v⟩

/-- The JSON form of tools. -/
def codec : Codec Tool := ⟨shape, ofNormal?, toValue, fun a b => a == b⟩

end Tool

namespace Summary

/-- The shape of a summary. -/
def shape : Shape := .record
  [("template", .optional, .text), ("profile", .required, .text),
    ("resources_scanned", .required, .word), ("abbreviations_loaded", .required, .word),
    ("checks_run", .default (.array []), .list .text), ("findings_total", .required, .word)]

/-- A summary as JSON. -/
def toValue (s : Summary) : Value :=
  .object (Finding.member? "template" (s.template.map .string) ++
    [("profile", .string s.profile),
      ("resources_scanned", .ofNat s.resourcesScanned.toNat),
      ("abbreviations_loaded", .ofNat s.abbreviationsLoaded.toNat),
      ("checks_run", .array (s.checksRun.map .string)),
      ("findings_total", .ofNat s.findingsTotal.toNat)])

/-- A summary from its normal form. -/
def ofNormal? (v : Value) : Option Summary := do
  pure {
    template := textAt? "template" v
    profile := ← textAt? "profile" v
    resourcesScanned := ← (v.get? "resources_scanned").bind word?
    abbreviationsLoaded := ← (v.get? "abbreviations_loaded").bind word?
    checksRun := ← ((← v.get? "checks_run").items?).bind fun ids => ids.mapM Value.text?
    findingsTotal := ← (v.get? "findings_total").bind word? }

/-- The JSON form of summaries. -/
def codec : Codec Summary := ⟨shape, ofNormal?, toValue, fun a b => a == b⟩

end Summary

/-- The JSON form of data that is left as it is. -/
def Codec.raw : Codec Value := ⟨.any, some, id, Value.same⟩

/-! ## Reports -/

namespace Envelope

variable {δ : Type}

/-- The shape of a report with data of a given form. -/
def shape (c : Codec δ) : Shape := .record
  [("schema", .required, .text), ("tool", .required, Tool.shape),
    ("started_at", .required, .textWhere fun s => (Timestamp.ofText? s).isSome),
    ("finished_at", .required, .textWhere fun s => (Timestamp.ofText? s).isSome),
    ("verdict", .required, Verdict.codec.shape), ("findings", .required, .list Finding.shape),
    ("data", .required, c.shape)]

/-- A report as JSON. -/
def toValue (c : Codec δ) (r : Envelope δ) : Value :=
  .object [("schema", .string r.schema), ("tool", r.tool.toValue),
    ("started_at", .string r.startedAt.toText), ("finished_at", .string r.finishedAt.toText),
    ("verdict", .string r.verdict.name), ("findings", .array (r.findings.map Finding.toValue)),
    ("data", c.toValue r.data)]

/-- A report from its normal form. -/
def ofNormal? (c : Codec δ) (v : Value) : Option (Envelope δ) := do
  pure {
    schema := ← textAt? "schema" v
    tool := ← (v.get? "tool").bind Tool.ofNormal?
    startedAt := ← (textAt? "started_at" v).bind Timestamp.ofText?
    finishedAt := ← (textAt? "finished_at" v).bind Timestamp.ofText?
    verdict := ← (textAt? "verdict" v).bind Verdict.ofName?
    findings := ← ((← v.get? "findings").items?).bind fun fs => fs.mapM Finding.ofNormal?
    data := ← (v.get? "data").bind c.ofNormal? }

/-- Equality of lists of findings. -/
def sameFindings : List Finding → List Finding → Bool
  | [], [] => true
  | a :: as, b :: bs => a.same b && sameFindings as bs
  | _, _ => false

/-- Equality of reports; times are equal when they are the same instant. -/
def same (c : Codec δ) (a b : Envelope δ) : Bool :=
  a.schema == b.schema && a.tool == b.tool && a.startedAt.instant == b.startedAt.instant &&
    a.finishedAt.instant == b.finishedAt.instant && a.verdict == b.verdict &&
    sameFindings a.findings b.findings && c.same a.data b.data

/-- The JSON form of reports with data of a given form. -/
def codec (c : Codec δ) : Codec (Envelope δ) := ⟨shape c, ofNormal? c, toValue c, same c⟩

end Envelope

/-- The JSON form of the report of a run. -/
def Report.codec : Codec Report := Envelope.codec Summary.codec

/-- The text of a report, one item a line. -/
def Report.toJson (r : Report) : String := Report.codec.document r

end TemplateGate
