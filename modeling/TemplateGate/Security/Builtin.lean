/-
# `Security.Builtin` — the rules of every run

Two things are asked of a storage account.  HTTPS has to be enforced by
the literal `true`; a text or a number that looks like it is not enough.
Encryption of blobs has to be switched on at a nested property, where any
value that counts as set will do.

For a SQL server, access from public networks is off unless it is switched
on, so its only violation is the one exact text that does so.

Storage accounts come before SQL servers: a type that carries both markers
is judged as a storage account.
-/
import TemplateGate.Security.Rule
import TemplateGate.Text.Basic

namespace TemplateGate.Security

open Json Text

/-! ## Storage accounts -/

namespace StorageAccount

/-- What occurs in the type of a storage account. -/
def typeMarker : String := "Microsoft.Storage/storageAccounts"

/-- The property that enforces HTTPS. -/
def httpsProperty : Resource → Option Value := fun r => r.property? ["supportsHttpsTrafficOnly"]

/-- The property that enables the encryption of blobs. -/
def blobProperty : Resource → Option Value := fun r =>
  r.property? ["encryption", "services", "blob", "enabled"]

/-- Whether HTTPS is enforced. -/
def enforcesHttps (r : Resource) : Bool :=
  match httpsProperty r with
  | some (.boolean true) => true
  | _ => false

/-- Whether blobs are encrypted. -/
def encryptsBlobs (r : Resource) : Bool := (blobProperty r).any Value.isTruthy

/-- The violation of a storage account that does not enforce HTTPS. -/
def httpsViolation (r : Resource) : Violation where
  code := Code.storageHttpsNotEnforced.text
  message := "Storage account should enforce HTTPS"
  help := "Set `supportsHttpsTrafficOnly: true`."
  data := .object [("supportsHttpsTrafficOnly", (httpsProperty r).getD .null)]

/-- The violation of a storage account that does not encrypt blobs. -/
def blobViolation (r : Resource) : Violation where
  code := Code.storageBlobEncryptionDisabled.text
  message := "Storage account blob encryption not enabled"
  help := "Set `encryption.services.blob.enabled: true`."
  data := .object [("blobEncryptionEnabled", (blobProperty r).getD .null)]

/-- The violations of a storage account, HTTPS first. -/
def violations (r : Resource) : List Violation :=
  (if enforcesHttps r then [] else [httpsViolation r]) ++
    (if encryptsBlobs r then [] else [blobViolation r])

/-- The rule for storage accounts. -/
def rule : Rule := ⟨"storage_account", occursIn typeMarker, violations⟩

end StorageAccount

/-! ## SQL servers -/

namespace SqlServer

/-- What occurs in the type of a SQL server. -/
def typeMarker : String := "Microsoft.Sql/servers"

/-- Whether access from public networks is switched on. -/
def isPublic (r : Resource) : Bool :=
  (r.property? ["publicNetworkAccess"]).bind Value.text? == some "Enabled"

/-- The violation of a server that public networks can reach. -/
def publicViolation : Violation where
  code := Code.sqlPublicNetworkAccess.text
  message := "SQL Server has public network access enabled"
  help := "Set `publicNetworkAccess: 'Disabled'` and use a private endpoint."
  data := .object [("publicNetworkAccess", .string "Enabled")]

/-- The violations of a SQL server. -/
def violations (r : Resource) : List Violation := if isPublic r then [publicViolation] else []

/-- The rule for SQL servers. -/
def rule : Rule := ⟨"sql_server", occursIn typeMarker, violations⟩

end SqlServer

/-- The built-in rules. -/
def Registry.builtin : Registry := [StorageAccount.rule, SqlServer.rule]

end TemplateGate.Security
