/-
# `Config.Resolve` — from a configuration to a policy

The profile is the one asked for on the command line, else the one the
configuration names, else `strict`.  A switch in the configuration goes
before the preset of the profile, and an entry of its table of SKUs
before the built-in one.

Resolution stops at the first of three faults: an unknown profile, the
least key of `checks` that names no check, and the least SKU whose
recommendation is blank.
-/
import TemplateGate.Config.Basic
import TemplateGate.Config.Profile
import TemplateGate.Text.Basic

namespace TemplateGate

open Text

/-- Why a configuration does not resolve. -/
inductive ResolveError where
  | unknownProfile (name : String)
  | unknownCheck (id : String)
  | blankRecommendation (sku : String)
  deriving DecidableEq, Repr

/-- The message of a fault of resolution. -/
def ResolveError.message : ResolveError → String
  | .unknownProfile name =>
      "unknown profile: " ++ name ++ " (expected one of: " ++
        String.intercalate ", " (Profile.all.map Profile.name) ++ ")"
  | .unknownCheck id =>
      "unknown check id in config: " ++ id ++ " (expected one of: " ++
        String.intercalate ", " (Check.all.map Check.id) ++ ")"
  | .blankRecommendation sku => "empty recommendation for oversized sku: " ++ sku

namespace Config

/-- The name of the profile that a configuration asks for. -/
def profileName (c : Config) (override : Option String) : String :=
  (override.or c.profile).getD Profile.strict.name

/-- The least key of `checks` that names no check. -/
def unknownCheck? (c : Config) : Option String :=
  (c.checks.entries.find? fun e => (Check.ofId? e.1).isNone).map (·.1)

/-- The least SKU with a blank recommendation. -/
def blankSku? (c : Config) : Option String :=
  (c.cost.oversized.entries.find? fun e => allBlank e.2).map (·.1)

/-- Whether a check is enabled under a profile: as the configuration says,
else as the profile says. -/
def enables (c : Config) (p : Profile) (check : Check) : Bool :=
  ((c.checks.get? check.id).bind (·.enabled)).getD (p.enables check)

/-- The table of SKUs that a configuration makes of the built-in one. -/
def oversized (c : Config) : Dictionary String :=
  (if c.cost.replaceDefaults then .empty else defaultOversized).overlay c.cost.oversized

/-- The policy of a configuration, under a profile that may be given from outside. -/
def resolve (c : Config) (override : Option String) : Except ResolveError Policy :=
  match Profile.ofName? (c.profileName override) with
  | none => .error (.unknownProfile (c.profileName override))
  | some p =>
      match c.unknownCheck? with
      | some id => .error (.unknownCheck id)
      | none =>
          match c.blankSku? with
          | some sku => .error (.blankRecommendation sku)
          | none => .ok ⟨p.name, .ofFn (c.enables p), c.oversized⟩

end Config

end TemplateGate
