/-
# `Proofs.Config.Pinned` — policies as configurations

A policy can be written down as a configuration that says everything: its
profile, a switch for every check, and the whole table of SKUs in place of
the built-in one.  Where a configuration says everything the profile has
nothing left to decide, so what it settles is the policy again under any
profile (`settles_pinned`).

It remains that such a configuration resolves at all, and that is the part
that depends on where the policy came from: its profile is known because
it was resolved, and its recommendations are not blank because neither
those that were listed nor the built-in ones are.
-/
import TemplateGate.Proofs.Config.Resolution

namespace TemplateGate

/-- The configuration that says of everything what a policy has. -/
def Policy.pinned (policy : Policy) (schema : Option String) : Config where
  schema
  profile := some policy.profile
  checks := policy.draft.switches.map fun on => ⟨some on⟩
  cost := ⟨true, policy.oversized⟩

namespace Config

variable {c : Config} {override schema : Option String} {policy : Policy}

theorem mem_checks_pinned_iff {id : String} {setting : CheckSetting} :
    (id, setting) ∈ (policy.pinned schema).checks.entries ↔
      ∃ check : Check, check.id = id ∧ setting = ⟨some (policy.enables check)⟩ := by
  have hswitches : ∀ on, (id, on) ∈ policy.draft.switches.entries ↔
      ∃ check : Check, check.id = id ∧ on = policy.enables check := by
    intro on
    rw [Dictionary.mem_entries_iff, Policy.draft, Check.get?_tableOf, Option.map_eq_some_iff]
    exact exists_congr fun check => and_congr (Check.ofId?_eq_some_iff.trans eq_comm) eq_comm
  constructor
  · intro h
    obtain ⟨⟨id', on⟩, hmem, heq⟩ := List.mem_map.mp h
    cases heq
    obtain ⟨check, rfl, rfl⟩ := (hswitches on).mp hmem
    exact ⟨check, rfl, rfl⟩
  · rintro ⟨check, rfl, rfl⟩
    exact List.mem_map.mpr ⟨_, (hswitches _).mpr ⟨check, rfl, rfl⟩, rfl⟩

/-- A pinned policy leaves nothing to the profile but its name. -/
theorem settles_pinned (policy : Policy) (schema : Option String) (name : String) :
    (policy.pinned schema).Settles name { policy with profile := name } where
  profile := rfl
  switched := by
    intro check setting on hmem hon
    obtain ⟨check', hid, rfl⟩ := mem_checks_pinned_iff.mp hmem
    obtain rfl := Check.id_inj.mp hid
    exact Option.some.inj hon
  preset := by
    intro check hunset
    have hset := hunset _ (mem_checks_pinned_iff.mpr ⟨check, rfl, rfl⟩)
    cases hset
  listed := fun _ _ hmem => Dictionary.mem_entries_iff.mp hmem
  unlisted := by
    intro sku hunlisted
    show policy.oversized.get? sku = none
    rw [Option.eq_none_iff_forall_ne_some]
    exact fun recommendation hget =>
      hunlisted ⟨recommendation, Dictionary.mem_entries_iff.mpr hget⟩

/-- A pinned policy is refused for nothing, under any profile that is known. -/
theorem not_refuses_pinned (h : c.resolve override = .ok policy) {name : String}
    (hname : KnownProfile name) : ¬ ∃ e, (policy.pinned schema).Refuses name e := by
  rw [exists_refuses_iff]
  rintro (hunknown | ⟨id, setting, hmem, hunknown⟩ | ⟨sku, recommendation, hmem, hblank⟩)
  · exact hunknown hname
  · obtain ⟨check, hid, -⟩ := mem_checks_pinned_iff.mp hmem
    exact hunknown ⟨check, hid⟩
  · exact not_blank_of_resolve h _ hmem hblank

theorem knownProfile_of_resolve (h : c.resolve override = .ok policy) :
    KnownProfile policy.profile := by
  obtain ⟨p, -, rfl⟩ := eq_of_resolve h
  exact knownProfile_iff.mpr ⟨p, rfl⟩

/-- A policy that a configuration has resolved to is what it resolves to itself
when it is written down in full, and another profile changes only its name. -/
theorem resolve_pinned (h : c.resolve override = .ok policy) (schema : Option String) :
    (policy.pinned schema).resolve none = .ok policy ∧
      ∀ name, KnownProfile name →
        (policy.pinned schema).resolve (some name) = .ok { policy with profile := name } := by
  constructor
  · exact resolve_eq_ok_iff_settles.mpr
      ⟨not_refuses_pinned h (knownProfile_of_resolve h), settles_pinned policy schema _⟩
  · intro name hname
    exact resolve_eq_ok_iff_settles.mpr
      ⟨not_refuses_pinned h hname, settles_pinned policy schema name⟩

/-- What was settled under `security-only` is kept under `strict`. -/
theorem resolve_pinned_of_layeredConfig :
    layeredConfig.resolve none =
        .ok ⟨"security-only", ⟨false, true, true⟩, layeredConfig.oversized⟩ ∧
      (Policy.pinned ⟨"security-only", ⟨false, true, true⟩, layeredConfig.oversized⟩
          none).resolve (some "strict") =
        .ok ⟨"strict", ⟨false, true, true⟩, layeredConfig.oversized⟩ := by
  have hresolve : layeredConfig.resolve none =
      .ok ⟨"security-only", ⟨false, true, true⟩, layeredConfig.oversized⟩ := rfl
  exact ⟨hresolve, (resolve_pinned hresolve none).2 "strict" (.inl rfl)⟩

end Config

end TemplateGate
