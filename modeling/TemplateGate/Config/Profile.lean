/-
# `Config.Profile` — preset policies

Two profiles exist.  `strict`, the default, enables every check;
`security-only` enables one.  Both come with the same table of SKUs.
-/
import TemplateGate.Policy

namespace TemplateGate

/-- A preset. -/
inductive Profile where
  | strict
  | securityOnly
  deriving DecidableEq, Repr

namespace Profile

/-- The name of a profile in configurations. -/
def name : Profile → String
  | strict => "strict"
  | securityOnly => "security-only"

/-- All profiles. -/
def all : List Profile := [strict, securityOnly]

/-- The profile with a name. -/
def ofName? (s : String) : Option Profile := all.find? fun p => p.name = s

@[simp] theorem ofName?_name (p : Profile) : ofName? p.name = some p := by cases p <;> decide

/-- Whether a profile enables a check. -/
def enables : Profile → Check → Bool
  | strict, _ => true
  | securityOnly, c => c == .security

end Profile

/-- The SKUs that are known to be oversized for non-production workloads. -/
def defaultOversized : Dictionary String := .ofList [
  ("Standard_D4s_v3", "Consider Standard_D2s_v3 for non-production"),
  ("Standard_D8s_v3", "Consider Standard_D4s_v3 for non-production"),
  ("P1V2", "Consider P1V1 for non-production app service plans")]

end TemplateGate
