/-
# `Proofs.Config.Effective` — what a configuration amounts to

What decides whether a check runs, and which SKUs are reported, said
without the steps by which a policy is put together: a check is on if the
configuration switches it on, or says nothing and the profile has it on;
and a SKU counts as oversized if the configuration names it, or it is one
of the built-in three and the configuration keeps those.

A policy that `resolve` returns enables exactly the checks that are on
(`enables_iff_isOn`) and its table has exactly the SKUs that count
(`isSome_oversized_iff`).
-/
import TemplateGate.Config.Resolve
import TemplateGate.Proofs.Dictionary

namespace TemplateGate.Config

/-- What a configuration says about the switch of a check. -/
def switch? (c : Config) (check : Check) : Option Bool :=
  (c.checks.get? check.id).bind (·.enabled)

/-- A check is on: by its switch, or by the profile if the switch is not set. -/
def IsOn (c : Config) (override : Option String) (check : Check) : Prop :=
  c.switch? check = some true ∨
    (c.switch? check = none ∧ (c.profileName override = "strict" ∨ check = .security))

/-- A SKU counts as oversized: the configuration lists it, or keeps the
built-in table and the SKU is in that. -/
def CountsOversized (c : Config) (sku : String) : Prop :=
  (∃ recommendation, (sku, recommendation) ∈ c.cost.oversized.entries) ∨
    (c.cost.replaceDefaults = false ∧ sku ∈ ["Standard_D4s_v3", "Standard_D8s_v3", "P1V2"])

/-! ## Resolution -/

theorem eq_of_resolve {c : Config} {override : Option String} {policy : Policy}
    (h : c.resolve override = .ok policy) :
    ∃ p, Profile.ofName? (c.profileName override) = some p ∧
      policy = ⟨p.name, .ofFn (c.enables p), c.oversized⟩ := by
  rw [resolve] at h
  split at h
  · cases h
  · rename_i p hp
    split at h
    · cases h
    · split at h
      · cases h
      · cases h
        exact ⟨p, hp, rfl⟩

/-- A configuration resolves if none of the three faults is there: its profile
is known, its keys of `checks` are, and none of its recommendations is blank. -/
theorem resolve_eq_ok_iff {c : Config} {override : Option String} {policy : Policy} :
    c.resolve override = .ok policy ↔
      ∃ p, Profile.ofName? (c.profileName override) = some p ∧ c.unknownCheck? = none ∧
        c.blankSku? = none ∧ policy = ⟨p.name, .ofFn (c.enables p), c.oversized⟩ := by
  rw [resolve]
  cases Profile.ofName? (c.profileName override) with
  | none => simp
  | some p => cases c.unknownCheck? <;> cases c.blankSku? <;> simp [eq_comm]

theorem eq_name_of_ofName? {s : String} {p : Profile} (h : Profile.ofName? s = some p) :
    s = p.name := by
  have hname := List.find?_some h
  exact (of_decide_eq_true hname).symm

theorem profile_enables_iff {p : Profile} {check : Check} :
    p.enables check = true ↔ p.name = "strict" ∨ check = .security := by
  cases p <;> cases check <;> decide

theorem enables_iff_isOn {c : Config} {override : Option String} {policy : Policy}
    (h : c.resolve override = .ok policy) (check : Check) :
    policy.enables check = true ↔ c.IsOn override check := by
  obtain ⟨p, hp, rfl⟩ := eq_of_resolve h
  rw [Policy.enables, Switches.get_ofFn, IsOn, eq_name_of_ofName? hp, enables,
    ← profile_enables_iff]
  change ((c.switch? check).getD _ = true) ↔ _
  cases c.switch? check with
  | none => simp
  | some b => simp

/-! ## The table of SKUs -/

theorem isSome_defaultOversized_iff {sku : String} :
    (defaultOversized.get? sku).isSome = true ↔
      sku ∈ ["Standard_D4s_v3", "Standard_D8s_v3", "P1V2"] := by
  rw [defaultOversized, Dictionary.ofList, List.foldl_cons, List.foldl_cons, List.foldl_cons,
    List.foldl_nil, Dictionary.get?_insert, Dictionary.get?_insert, Dictionary.get?_insert,
    Dictionary.get?_empty]
  grind

theorem isSome_oversized_iff {c : Config} {override : Option String} {policy : Policy}
    (h : c.resolve override = .ok policy) (sku : String) :
    (policy.oversized.get? sku).isSome = true ↔ c.CountsOversized sku := by
  obtain ⟨p, -, rfl⟩ := eq_of_resolve h
  have hlisted : (∃ recommendation, (sku, recommendation) ∈ c.cost.oversized.entries) ↔
      (c.cost.oversized.get? sku).isSome = true := by
    simp only [Dictionary.mem_entries_iff, Option.isSome_iff_exists]
  rw [CountsOversized, hlisted, oversized, Dictionary.get?_overlay, Option.isSome_or,
    Bool.or_eq_true]
  cases hreplace : c.cost.replaceDefaults with
  | true => simp
  | false => simp only [Bool.false_eq_true, if_false, true_and, isSome_defaultOversized_iff]

end TemplateGate.Config
