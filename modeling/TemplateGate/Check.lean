/-
# `Check` — the checks of the gate and the codes of their findings

Three checks exist, and every run performs those that are enabled in the
order naming, security, cost.  A finding names its check by a dotted
identifier and the kind of violation by a code; each built-in code
belongs to one check.
-/

namespace TemplateGate

/-- A check that a policy can enable. -/
inductive Check where
  | naming
  | security
  | cost
  deriving DecidableEq, Repr

namespace Check

/-- The identifier of a check in reports and configurations. -/
def id : Check → String
  | naming => "naming.abbreviations"
  | security => "security.hardening"
  | cost => "cost.oversized_sku"

/-- All checks, in the order in which they run. -/
def all : List Check := [naming, security, cost]

/-- The check with an identifier. -/
def ofId? (id : String) : Option Check := all.find? fun c => c.id = id

theorem mem_all (c : Check) : c ∈ all := by cases c <;> decide

theorem id_inj {c d : Check} : c.id = d.id ↔ c = d := by
  constructor
  · cases c <;> cases d <;> decide
  · exact fun h => h ▸ rfl

@[simp] theorem ofId?_id (c : Check) : ofId? c.id = some c := by cases c <;> decide

/-- Exactly the identifiers of checks are recognised. -/
theorem ofId?_eq_some_iff {s : String} {c : Check} : ofId? s = some c ↔ s = c.id := by
  constructor
  · intro h
    exact Eq.symm (by simpa using List.find?_some h)
  · exact fun h => h ▸ ofId?_id c

end Check

/-- The built-in codes of findings. -/
inductive Code where
  | abbreviationWithoutFullTerm
  | storageHttpsNotEnforced
  | storageBlobEncryptionDisabled
  | sqlPublicNetworkAccess
  | oversizedSku
  deriving DecidableEq, Repr

namespace Code

/-- The text of a code in reports. -/
def text : Code → String
  | abbreviationWithoutFullTerm => "abbreviation_without_full_term"
  | storageHttpsNotEnforced => "storage_https_not_enforced"
  | storageBlobEncryptionDisabled => "storage_blob_encryption_disabled"
  | sqlPublicNetworkAccess => "sql_public_network_access"
  | oversizedSku => "oversized_sku"

/-- The check whose findings carry a code. -/
def check : Code → Check
  | abbreviationWithoutFullTerm => .naming
  | storageHttpsNotEnforced => .security
  | storageBlobEncryptionDisabled => .security
  | sqlPublicNetworkAccess => .security
  | oversizedSku => .cost

/-- All built-in codes, grouped by check. -/
def all : List Code :=
  [abbreviationWithoutFullTerm, storageHttpsNotEnforced, storageBlobEncryptionDisabled,
    sqlPublicNetworkAccess, oversizedSku]

/-- The code with a text. -/
def ofText? (s : String) : Option Code := all.find? fun c => c.text = s

theorem mem_all (c : Code) : c ∈ all := by cases c <;> decide

@[simp] theorem ofText?_text (c : Code) : ofText? c.text = some c := by cases c <;> decide

/-- Exactly the texts of codes are recognised. -/
theorem ofText?_eq_some_iff {s : String} {c : Code} : ofText? s = some c ↔ s = c.text := by
  constructor
  · intro h
    exact Eq.symm (by simpa using List.find?_some h)
  · exact fun h => h ▸ ofText?_text c

end Code

end TemplateGate
