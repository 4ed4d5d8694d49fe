/-
# `Proofs.Security.Builtin` — what the built-in rules report

The two built-in rules, resource by resource: which of them is asked, what
it objects to, and what its findings show (`Judged`).  Nothing is assumed
of a resource, so its type may carry both markers, and its properties may
be nested in any way and hold values of any kind.  A path of properties
either leads to a value or breaks off, at a key that is missing or at
something that is no object (`Value.Breaks`), and a finding shows the value
at the end of its path, or `null` where that breaks off.

Findings carry more than that value.  Their payload begins with the
resource, the rule and the type, and no rule sets one of these keys, so
they stand as they are (`payload_extra`).

Whether a number is set depends on what it denotes and not on how it is
written, so the main theorem also says which numerals denote zero.
-/
import Mathlib.Data.List.Flatten
import TemplateGate.Proofs.Compliance
import TemplateGate.Proofs.Json.Members
import TemplateGate.Proofs.Json.Zero

namespace TemplateGate

open Json Text

/-- A path of keys leads nowhere from a value: a key is missing on the way, or
something on the way is no object. -/
inductive Json.Value.Breaks : List String → Value → Prop
  | missing {key : String} {path : List String} {members : Members} :
      members.get? key = none → Breaks (key :: path) (.object members)
  | further {key : String} {path : List String} {members : Members} {v : Value} :
      members.get? key = some v → Breaks path v → Breaks (key :: path) (.object members)
  | noObject {key : String} {path : List String} {v : Value} :
      v.members? = none → Breaks (key :: path) v

/-- A path breaks off exactly if there is nothing that it leads to. -/
theorem Json.Value.breaks_iff {path : List String} : ∀ {v : Value},
    Breaks path v ↔ ¬ ∃ w, At path v w := by
  induction path with
  | nil =>
      intro v
      constructor
      · intro h
        cases h
      · exact fun h => absurd ⟨v, .here⟩ h
  | cons key path ih =>
      intro v
      constructor
      · intro h
        rintro ⟨w, hat⟩
        cases hat with
        | step hget hrest =>
            cases h with
            | missing hnone =>
                rw [hget] at hnone
                cases hnone
            | further hget' hbreaks =>
                rw [hget] at hget'
                cases hget'
                exact ih.mp hbreaks ⟨w, hrest⟩
            | noObject hnone => cases hnone
      · intro h
        cases hv : v.members? with
        | none => exact .noObject hv
        | some members =>
            obtain rfl : v = .object members := by
              cases v <;> cases hv
              rfl
            cases hget : members.get? key with
            | none => exact .missing hget
            | some u =>
                refine .further hget (ih.mpr ?_)
                rintro ⟨w, hrest⟩
                exact h ⟨w, .step hget hrest⟩

namespace Security

/-! ## What a finding shows -/

/-- What a resource has at a path of its properties; where the path breaks off it is `null`. -/
inductive Offers (r : Resource) (path : List String) : Value → Prop
  | reached {v : Value} : Value.At path (.object r.properties) v → Offers r path v
  | broken : Value.Breaks path (.object r.properties) → Offers r path .null

/-- A finding of a hardening rule about the resource at a position.  It shows
the name of the resource, the rule, the type, and what the resource has at the
path that the rule objects to, in this order and nothing else. -/
structure Exhibits (kind code key : String) (path : List String) (index : Nat) (r : Resource)
    (f : Finding) : Prop where
  checkId : f.checkId = "security.hardening"
  code : f.code = code
  resource : f.resource = some (r.ref index)
  data : ∃ v, Offers r path v ∧ f.data = .object
    [("resource", .string r.name), ("rule", .string kind), ("type", .string r.type), (key, v)]

/-- There is one finding of a kind if there is reason for it, and else none. -/
inductive ReportedIf (reason : Prop) (describes : Finding → Prop) : List Finding → Prop
  | silent : ¬ reason → ReportedIf reason describes []
  | one {f : Finding} : reason → describes f → ReportedIf reason describes [f]

/-- The path of the switch that encrypts blobs. -/
def blobPath : List String := ["encryption", "services", "blob", "enabled"]

/-- What is reported about the resource at a position: about a storage account
that it does not enforce HTTPS, unless by the literal `true`, and then that it
does not encrypt blobs, if the switch for that is not there or is not set; about
a SQL server, which is one only if it is no storage account, that public
networks can reach it; and about other resources nothing. -/
inductive Judged (index : Nat) (r : Resource) : List Finding → Prop
  | storage {https blobs : List Finding} :
      "Microsoft.Storage/storageAccounts".toList <:+: r.type.toList →
      ReportedIf (¬ Value.At ["supportsHttpsTrafficOnly"] (.object r.properties) (.boolean true))
        (Exhibits "storage_account" "storage_https_not_enforced" "supportsHttpsTrafficOnly"
          ["supportsHttpsTrafficOnly"] index r) https →
      ReportedIf (Value.Breaks blobPath (.object r.properties) ∨
          ∃ v, Value.At blobPath (.object r.properties) v ∧ v.Unset)
        (Exhibits "storage_account" "storage_blob_encryption_disabled" "blobEncryptionEnabled"
          blobPath index r) blobs →
      Judged index r (https ++ blobs)
  | server {access : List Finding} :
      ¬ "Microsoft.Storage/storageAccounts".toList <:+: r.type.toList →
      "Microsoft.Sql/servers".toList <:+: r.type.toList →
      ReportedIf (Value.At ["publicNetworkAccess"] (.object r.properties) (.string "Enabled"))
        (Exhibits "sql_server" "sql_public_network_access" "publicNetworkAccess"
          ["publicNetworkAccess"] index r) access →
      Judged index r access
  | other :
      ¬ "Microsoft.Storage/storageAccounts".toList <:+: r.type.toList →
      ¬ "Microsoft.Sql/servers".toList <:+: r.type.toList →
      Judged index r []

/-! ## The rules -/

variable {index : Nat} {r : Resource} {path : List String}

theorem offers_property (h : path ≠ []) : Offers r path ((r.property? path).getD .null) := by
  cases hproperty : r.property? path with
  | some v => exact .reached ((Resource.property?_eq_some_iff h).mp hproperty)
  | none =>
      refine .broken (Value.breaks_iff.mpr ?_)
      rintro ⟨v, hat⟩
      rw [(Resource.property?_eq_some_iff h).mpr hat] at hproperty
      cases hproperty

theorem payload_extra (kind : String) (r : Resource) {key : String} (v : Value)
    (h : key ∉ ["resource", "rule", "type"]) : payload kind r (.object [(key, v)]) =
      [("resource", .string r.name), ("rule", .string kind), ("type", .string r.type),
        (key, v)] :=
  Members.set_of_not_mem h

theorem exhibits_finding {kind key : String} {v : Violation} {shown : Value}
    (hshown : Offers r path shown) (hkey : key ∉ ["resource", "rule", "type"])
    (hdata : v.data = .object [(key, shown)]) :
    Exhibits kind v.code key path index r (finding kind index r v) where
  checkId := rfl
  code := rfl
  resource := rfl
  data := by
    refine ⟨shown, hshown, ?_⟩
    rw [finding, hdata, payload_extra kind r shown hkey]

theorem reportedIf_of_iff {reason : Prop} {describes : Finding → Prop} {silent : Bool}
    {f : Finding} (hiff : silent = true ↔ ¬ reason) (hf : describes f) :
    ReportedIf reason describes (if silent then [] else [f]) := by
  cases silent with
  | true => exact .silent (hiff.mp rfl)
  | false => exact .one (not_not.mp fun h => absurd (hiff.mpr h) Bool.false_ne_true) hf

theorem encryptsBlobs_iff_not_breaks : StorageAccount.encryptsBlobs r = true ↔
    ¬ (Value.Breaks blobPath (.object r.properties) ∨
      ∃ v, Value.At blobPath (.object r.properties) v ∧ v.Unset) := by
  have hpath : blobPath ≠ [] := List.cons_ne_nil _ _
  rw [encryptsBlobs_iff, not_or, Value.breaks_iff, not_not]
  constructor
  · rintro ⟨v, hv, hset⟩
    have hat := (Resource.property?_eq_some_iff hpath).mp hv
    refine ⟨⟨v, hat⟩, ?_⟩
    rintro ⟨w, hw, hunset⟩
    -- A path leads to one value only, as the look-up along it is a function.
    have heq : some w = some v :=
      ((Resource.property?_eq_some_iff hpath).mpr hw).symm.trans hv
    cases heq
    exact hset hunset
  · rintro ⟨⟨v, hat⟩, hset⟩
    exact ⟨v, (Resource.property?_eq_some_iff hpath).mpr hat, fun hunset => hset ⟨v, hat, hunset⟩⟩

theorem judged_storage (hmarked : occursIn StorageAccount.typeMarker r.type = true) :
    Judged index r ((StorageAccount.violations r).map (finding "storage_account" index r)) := by
  have hhttps : StorageAccount.enforcesHttps r = true ↔
      ¬ ¬ Value.At ["supportsHttpsTrafficOnly"] (.object r.properties) (.boolean true) := by
    rw [not_not, enforcesHttps_iff]
    exact Resource.property?_eq_some_iff (List.cons_ne_nil _ _)
  have hshowsHttps : Exhibits "storage_account" "storage_https_not_enforced"
      "supportsHttpsTrafficOnly" ["supportsHttpsTrafficOnly"] index r
      (finding "storage_account" index r (StorageAccount.httpsViolation r)) :=
    exhibits_finding (v := StorageAccount.httpsViolation r) (offers_property (List.cons_ne_nil _ _))
      (by decide) rfl
  have hshowsBlobs : Exhibits "storage_account" "storage_blob_encryption_disabled"
      "blobEncryptionEnabled" blobPath index r
      (finding "storage_account" index r (StorageAccount.blobViolation r)) :=
    exhibits_finding (v := StorageAccount.blobViolation r) (offers_property (List.cons_ne_nil _ _))
      (by decide) rfl
  rw [StorageAccount.violations, List.map_append, apply_ite (List.map _), apply_ite (List.map _)]
  exact .storage (occursIn_iff.mp hmarked) (reportedIf_of_iff hhttps hshowsHttps)
    (reportedIf_of_iff encryptsBlobs_iff_not_breaks hshowsBlobs)

theorem judged_server (hunmarked : ¬ occursIn StorageAccount.typeMarker r.type = true)
    (hmarked : occursIn SqlServer.typeMarker r.type = true) :
    Judged index r ((SqlServer.violations r).map (finding "sql_server" index r)) := by
  have hpublic : SqlServer.isPublic r = true ↔
      Value.At ["publicNetworkAccess"] (.object r.properties) (.string "Enabled") := by
    rw [isPublic_iff]
    exact Resource.property?_eq_some_iff (List.cons_ne_nil _ _)
  refine .server (mt occursIn_iff.mpr hunmarked) (occursIn_iff.mp hmarked) ?_
  rw [SqlServer.violations]
  split
  · rename_i h
    -- The finding shows a fixed text, which is what the property was found to be.
    have hat := hpublic.mp h
    exact .one hat (exhibits_finding (v := SqlServer.publicViolation) (.reached hat)
      (by decide) rfl)
  · rename_i h
    exact .silent (mt hpublic.mpr h)

/-- The built-in rules judge every resource as its type and its properties demand. -/
theorem judged_findingsAt (index : Nat) (r : Resource) :
    Judged index r (Registry.builtin.findingsAt index r) := by
  rw [Registry.findingsAt, ruleFor?_builtin]
  by_cases hstorage : occursIn StorageAccount.typeMarker r.type = true
  · rw [if_pos hstorage]
    exact judged_storage hstorage
  · rw [if_neg hstorage]
    by_cases hserver : occursIn SqlServer.typeMarker r.type = true
    · rw [if_pos hserver]
      exact judged_server hstorage hserver
    · rw [if_neg hserver]
      exact .other (mt occursIn_iff.mpr hstorage) (mt occursIn_iff.mpr hserver)

/-! ## All findings -/

/-- The built-in rules report about the resources of a document one after the
other, about each as its type and its properties demand.  What does not count
as set there includes zero in every notation, and every number that is too
small for the format. -/
theorem Registry.builtin_exact :
    (∀ doc : Document, ∃ reports : List (List Finding),
      List.Forall₂ (fun e fs => Judged e.2 e.1 fs) doc.zipIdx reports ∧
        builtin.findings doc = reports.flatten) ∧
    ∀ (negative : Bool) (whole : List Char) (places : Option (List Char)) (exponent : Option Int)
      (n : Number), Negligible whole places exponent →
        numberOf negative whole places exponent = some n → Value.Unset (.number n) := by
  constructor
  · intro doc
    refine ⟨doc.zipIdx.map fun e => builtin.findingsAt e.2 e.1, ?_, ?_⟩
    · rw [List.forall₂_map_right_iff, List.forall₂_same]
      exact fun e _ => judged_findingsAt e.2 e.1
    · rw [findings, List.flatMap_def]
  · exact fun _ _ _ _ _ hnegligible h => .zero (isZero_of_negligible hnegligible h)

/-- Neither `-0.00e7` is set nor `1e-400`. -/
theorem Registry.builtin_exact_of_zeros :
    Value.Unset (.number (.double (.zero true))) ∧
    Value.Unset (.number (.double (.zero false))) :=
  ⟨builtin_exact.2 true ['0'] (some ['0', '0']) (some 7) _ (.zeros (by simp) (by simp))
      (by decide +kernel),
    builtin_exact.2 false ['1'] none (some (-400)) _ (.small (by decide)) (by decide +kernel)⟩

end Security

end TemplateGate
