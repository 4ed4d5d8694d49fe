/-
# `Explanation` — what the checks and codes mean, and how to comply

Every identifier of a check and every code has an explanation: a title, a
description, a remedy, and a template before and after it.  Two codes
share everything but the title with their check, being its only code.

An explanation is laid out for the terminal with underlined headings.
Whoever asks for an identifier that is not known is told which ones are.
-/
import TemplateGate.Check
import TemplateGate.Text.Basic

namespace TemplateGate

open Text

/-- The explanation of a check or a code. -/
structure Explanation where
  title : String
  description : String
  remediation : String
  /-- A template with a violation. -/
  before : String
  /-- The template without it. -/
  after : String
  deriving DecidableEq, Repr

namespace Explanation

/-- Lines of text, a line feed between any two. -/
def unlines (lines : List String) : String := String.intercalate "\n" lines

/-- The naming check. -/
def naming : Explanation where
  title := "Naming Abbreviations"
  description := unlines [
    "Flags resource names that contain a banned abbreviation without also containing",
    "the full term it stands for.",
    "",
    "Abbreviations come from `abbreviations.json`, a JSON object mapping each",
    "disallowed abbreviation to its required full term. Matching is a plain,",
    "case-sensitive substring test: an abbreviation inside a longer token still",
    "matches. Without an abbreviations file this check reports nothing."]
  remediation := unlines [
    "Spell out the full term in the resource name, or include the full term",
    "alongside the abbreviation."]
  before := unlines [
    "// abbreviations.json: \x7b \"stg\": \"storage\" \x7d",
    "resource sa 'Microsoft.Storage/storageAccounts@2023-01-01' = \x7b",
    "  name: 'appstg01'",
    "\x7d"]
  after := unlines [
    "resource sa 'Microsoft.Storage/storageAccounts@2023-01-01' = \x7b",
    "  name: 'appstorage01'",
    "\x7d"]

/-- The security check. -/
def security : Explanation where
  title := "Security Hardening Defaults"
  description := unlines [
    "Checks security-sensitive resource types against hardening defaults:",
    "",
    "- Storage accounts must set `supportsHttpsTrafficOnly: true`",
    "- Storage accounts must enable blob encryption",
    "  (`encryption.services.blob.enabled`)",
    "- SQL servers must not set `publicNetworkAccess: 'Enabled'`",
    "",
    "Missing properties are treated as not configured, which fails the HTTPS and",
    "encryption rules and passes the SQL rule."]
  remediation := unlines [
    "Set the hardening properties explicitly in the template. See the individual",
    "codes (`storage_https_not_enforced`, `storage_blob_encryption_disabled`,",
    "`sql_public_network_access`) for details."]
  before := unlines [
    "resource sa 'Microsoft.Storage/storageAccounts@2023-01-01' = \x7b",
    "  name: 'appstorage'",
    "  properties: \x7b\x7d",
    "\x7d"]
  after := unlines [
    "resource sa 'Microsoft.Storage/storageAccounts@2023-01-01' = \x7b",
    "  name: 'appstorage'",
    "  properties: \x7b",
    "    supportsHttpsTrafficOnly: true",
    "    encryption: \x7b",
    "      services: \x7b",
    "        blob: \x7b enabled: true \x7d",
    "      \x7d",
    "    \x7d",
    "  \x7d",
    "\x7d"]

/-- The cost check. -/
def cost : Explanation where
  title := "Oversized SKUs"
  description := unlines [
    "Flags resources provisioned with a SKU that is known to be oversized for",
    "non-production workloads.",
    "",
    "This is a whitelist of known-bad SKU names, matched exactly against `sku.name`.",
    "Unknown SKUs and resources without a SKU are never flagged."]
  remediation := unlines [
    "Pick the smaller SKU named in the recommendation, or extend the table in",
    "`armguard.toml` under `[cost.oversized_skus]` if the default is wrong for you."]
  before := unlines [
    "resource plan 'Microsoft.Web/serverfarms@2022-09-01' = \x7b",
    "  name: 'app-plan'",
    "  sku: \x7b name: 'P1V2' \x7d",
    "\x7d"]
  after := unlines [
    "resource plan 'Microsoft.Web/serverfarms@2022-09-01' = \x7b",
    "  name: 'app-plan'",
    "  sku: \x7b name: 'P1V1' \x7d",
    "\x7d"]

/-- Storage accounts that do not enforce HTTPS. -/
def storageHttpsNotEnforced : Explanation where
  title := "Storage Account HTTPS Not Enforced"
  description := unlines [
    "The storage account does not set `supportsHttpsTrafficOnly` to `true`.",
    "",
    "Anything other than a literal `true` fails, including a missing property or a",
    "string such as `'true'`."]
  remediation := unlines [
    "Set `supportsHttpsTrafficOnly: true` in the storage account properties."]
  before := unlines [
    "properties: \x7b",
    "  supportsHttpsTrafficOnly: false",
    "\x7d"]
  after := unlines [
    "properties: \x7b",
    "  supportsHttpsTrafficOnly: true",
    "\x7d"]

/-- Storage accounts that do not encrypt blobs. -/
def storageBlobEncryptionDisabled : Explanation where
  title := "Storage Account Blob Encryption Disabled"
  description := unlines [
    "The storage account does not enable blob encryption at",
    "`properties.encryption.services.blob.enabled`.",
    "",
    "A missing `encryption`, `services`, or `blob` object counts as disabled."]
  remediation := unlines [
    "Declare the full encryption block with `enabled: true` for the blob service."]
  before := unlines [
    "properties: \x7b",
    "  supportsHttpsTrafficOnly: true",
    "\x7d"]
  after := unlines [
    "properties: \x7b",
    "  supportsHttpsTrafficOnly: true",
    "  encryption: \x7b",
    "    services: \x7b",
    "      blob: \x7b enabled: true \x7d",
    "    \x7d",
    "  \x7d",
    "\x7d"]

/-- SQL servers that public networks can reach. -/
def sqlPublicNetworkAccess : Explanation where
  title := "SQL Server Public Network Access"
  description := unlines [
    "The SQL server sets `publicNetworkAccess` to exactly `'Enabled'`, exposing it to",
    "the public internet.",
    "",
    "Any other value, including a missing property, passes."]
  remediation := unlines [
    "Set `publicNetworkAccess: 'Disabled'` and reach the server through a private",
    "endpoint."]
  before := unlines [
    "resource sql 'Microsoft.Sql/servers@2022-05-01-preview' = \x7b",
    "  name: 'app-sql'",
    "  properties: \x7b publicNetworkAccess: 'Enabled' \x7d",
    "\x7d"]
  after := unlines [
    "resource sql 'Microsoft.Sql/servers@2022-05-01-preview' = \x7b",
    "  name: 'app-sql'",
    "  properties: \x7b publicNetworkAccess: 'Disabled' \x7d",
    "\x7d"]

end Explanation

/-- The explanation of a check. -/
def Check.explanation : Check → Explanation
  | naming => .naming
  | security => .security
  | cost => .cost

/-- The explanation of a code. -/
def Code.explanation : Code → Explanation
  | abbreviationWithoutFullTerm =>
      { Explanation.naming with title := "Abbreviation Without Full Term" }
  | storageHttpsNotEnforced => .storageHttpsNotEnforced
  | storageBlobEncryptionDisabled => .storageBlobEncryptionDisabled
  | sqlPublicNetworkAccess => .sqlPublicNetworkAccess
  | oversizedSku => { Explanation.cost with title := "Oversized SKU" }

namespace Explanation

/-- The explanation of an identifier of a check, or of a code. -/
def find? (identifier : String) : Option Explanation :=
  ((Check.ofId? identifier).map Check.explanation).or
    ((Code.ofText? identifier).map Code.explanation)

/-- A heading over a line of its length. -/
def heading (title : String) (rule : Char) : String :=
  title ++ "\n" ++ String.ofList (List.replicate title.length rule) ++ "\n"

/-- A labelled template. -/
def sample (label body : String) : String :=
  label ++ "\n```bicep\n" ++ trimEnd body ++ "\n```\n"

/-- The layout of an explanation for the terminal. -/
def toText (e : Explanation) : String :=
  heading e.title '=' ++ "\n" ++ e.description ++ "\n\n" ++
    heading "Remediation" '-' ++ e.remediation ++ "\n\n" ++
    heading "Examples" '-' ++ "\n" ++
    sample "Before (violation):" e.before ++ "\n" ++ sample "After (fixed):" e.after

/-- One item of a list for the terminal. -/
def bullet (item : String) : String := "  - " ++ item ++ "\n"

/-- What is said about an identifier that is not known. -/
def notFound (identifier : String) (checkIds codes : List String) : String :=
  "Unknown check_id or code: " ++ identifier ++ "\n\nAvailable check_ids:\n" ++
    String.join (checkIds.map bullet) ++ "\nAvailable codes:\n" ++ String.join (codes.map bullet)

/-- The answer to a question for an identifier: an explanation, or a hint
at the identifiers that have one. -/
def answer (identifier : String) : Except String String :=
  match find? identifier with
  | some e => .ok e.toText
  | none => .error (notFound identifier (Check.all.map Check.id) (Code.all.map Code.text))

end Explanation

end TemplateGate
