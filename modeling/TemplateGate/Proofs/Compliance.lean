/-
# `Proofs.Compliance` — what is asked of the entries of a template

The checks look for violations; this module says what it is to have none.
`Compliant` is stated on the entries of the template as they stand in the
JSON text, by the paths that have to lead somewhere, and mentions neither
resources nor findings: an entry complies if it spells out its name, is
hardened, and has no oversized SKU, each as far as the check is on.

The bridge has two halves.  An evaluation finds nothing exactly if each
check finds nothing at each resource (`findings_eq_nil_iff`), and what a
check reads off a resource is what lies at a path of its entry
(`property?_ofMembers_iff`, `skuName?_ofMembers_iff`).
-/
import TemplateGate.Evaluation
import TemplateGate.Proofs.Config.Effective
import TemplateGate.Proofs.Json.Path
import TemplateGate.Proofs.Lists

namespace TemplateGate

open Json Text

/-! ## The entries of a template -/

/-- The entries that the root of a template declares: the items of an
array under `resources`, or the values of the members of an object. -/
inductive Document.Declares (root : Members) : Value → Prop
  | item {items : List Value} {v : Value} :
      root.get? "resources" = some (.array items) → v ∈ items → Declares root v
  | member {members : Members} {name : String} {v : Value} :
      root.get? "resources" = some (.object members) → (name, v) ∈ members → Declares root v

theorem Document.mem_entries_iff {root : Members} {entries : List Value} {v : Value}
    (h : entries? root = some entries) : v ∈ entries ↔ Declares root v := by
  rw [entries?] at h
  split at h
  · rename_i hnone
    cases h
    refine ⟨fun hv => absurd hv List.not_mem_nil, fun hd => ?_⟩
    cases hd <;> simp_all
  · rename_i hnull
    cases h
    refine ⟨fun hv => absurd hv List.not_mem_nil, fun hd => ?_⟩
    cases hd <;> simp_all
  · rename_i items hitems
    cases h
    refine ⟨.item hitems, fun hd => ?_⟩
    cases hd with
    | item h' hv =>
        rw [hitems] at h'
        cases h'
        exact hv
    | member h' _ =>
        rw [hitems] at h'
        cases h'
  · rename_i members hmembers
    cases h
    constructor
    · intro hv
      obtain ⟨⟨name, u⟩, hm, rfl⟩ := List.mem_map.mp hv
      exact .member hmembers hm
    · intro hd
      cases hd with
      | item h' _ =>
          rw [hmembers] at h'
          cases h'
      | member h' hm =>
          rw [hmembers] at h'
          cases h'
          exact List.mem_map.mpr ⟨_, hm, rfl⟩
  · cases h

/-- A text that is a template has an object at its root, with entries. -/
theorem Document.eq_of_parse {text : String} {doc : Document} (h : parse text = .ok doc) :
    ∃ root entries, Json.parse text = .ok (.object root) ∧ entries? root = some entries ∧
      doc = ofEntries entries := by
  rw [parse] at h
  split at h
  · rename_i root hroot
    unfold ofValue at h
    split at h
    · rename_i members
      split at h
      · rename_i entries hentries
        cases h
        exact ⟨members, entries, hroot, hentries, rfl⟩
      · cases h
    · cases h
  · cases h

theorem Document.mem_ofEntries_iff {entries : List Value} {r : Resource} :
    r ∈ ofEntries entries ↔ ∃ entry, .object entry ∈ entries ∧ r = .ofMembers entry := by
  rw [ofEntries, List.mem_filterMap]
  constructor
  · rintro ⟨v, hv, hr⟩
    cases v with
    | object entry =>
        cases hr
        exact ⟨entry, hv, rfl⟩
    | _ => cases hr
  · rintro ⟨entry, hv, rfl⟩
    exact ⟨.object entry, hv, rfl⟩

/-! ## What a resource takes from its entry -/

theorem bind_members?_eq_some_iff {found : Option Value} {members : Members} :
    found.bind Value.members? = some members ↔ found = some (.object members) := by
  cases found with
  | none => simp
  | some v => cases v <;> simp [Value.members?]

theorem bind_text?_eq_some_iff {found : Option Value} {s : String} :
    found.bind Value.text? = some s ↔ found = some (.string s) := by
  cases found with
  | none => simp
  | some v => cases v <;> simp [Value.text?]

namespace Resource

theorem property?_ofMembers_iff {entry : Members} {path : List String} {w : Value}
    (h : path ≠ []) : (ofMembers entry).property? path = some w ↔
      Value.At ("properties" :: path) (.object entry) w := by
  rw [property?_eq_some_iff h, Value.at_cons_iff]
  cases hp : (entry.get? "properties").bind Value.members? with
  | none =>
      -- Without an object there nothing has a property, and no path leads on.
      have hempty : (ofMembers entry).properties = [] := by simp [ofMembers, hp]
      obtain ⟨key, rest, rfl⟩ := List.exists_cons_of_ne_nil h
      rw [hempty, Value.at_cons_iff]
      constructor
      · rintro ⟨v, hget, -⟩
        cases hget
      · rintro ⟨v, hget, hat⟩
        obtain ⟨members, rfl⟩ := hat.object
        rw [bind_members?_eq_some_iff.mpr hget] at hp
        cases hp
  | some members =>
      have hmembers : (ofMembers entry).properties = members := by simp [ofMembers, hp]
      rw [bind_members?_eq_some_iff] at hp
      rw [hmembers]
      constructor
      · exact fun hat => ⟨_, hp, hat⟩
      · rintro ⟨v, hget, hat⟩
        rw [hp] at hget
        cases hget
        exact hat

theorem skuName?_ofMembers_iff {entry : Members} {sku : String} :
    (ofMembers entry).skuName? = some sku ↔
      Value.At ["sku", "name"] (.object entry) (.string sku) := by
  rw [skuName?, bind_text?_eq_some_iff, Option.bind_eq_some_iff, Value.at_cons_iff]
  constructor
  · rintro ⟨members, hsku, hname⟩
    exact ⟨_, bind_members?_eq_some_iff.mp hsku, Value.at_singleton_iff.mpr hname⟩
  · rintro ⟨v, hsku, hat⟩
    obtain ⟨members, rfl⟩ := hat.object
    exact ⟨members, bind_members?_eq_some_iff.mpr hsku, Value.at_singleton_iff.mp hat⟩

end Resource

/-! ## Compliant entries -/

/-- A storage account is hardened: HTTPS is enforced by the literal `true`,
and the switch for the encryption of blobs is there and counts as set. -/
structure StorageHardened (entry : Members) : Prop where
  https : Value.At ["properties", "supportsHttpsTrafficOnly"] (.object entry) (.boolean true)
  blobs : ∃ v, Value.At ["properties", "encryption", "services", "blob", "enabled"]
    (.object entry) v ∧ ¬ v.Unset

/-- An entry is hardened as its type demands.  A type that names both a
storage account and a SQL server is that of a storage account. -/
structure Hardened (entry : Members) : Prop where
  storage : "Microsoft.Storage/storageAccounts".toList <:+: (textAt "type" entry).toList →
    StorageHardened entry
  sql : ¬ "Microsoft.Storage/storageAccounts".toList <:+: (textAt "type" entry).toList →
    "Microsoft.Sql/servers".toList <:+: (textAt "type" entry).toList →
      ¬ Value.At ["properties", "publicNetworkAccess"] (.object entry) (.string "Enabled")

/-- A name has no abbreviation in it whose full term it does not have too. -/
def SpelledOut (abbreviations : Dictionary String) (name : String) : Prop :=
  ∀ abbreviation full, (abbreviation, full) ∈ abbreviations.entries →
    ¬ abbreviation.toList <:+: name.toList ∨ full.toList <:+: name.toList

/-- An entry complies with a configuration, as far as its checks are on. -/
structure Compliant (config : Config) (override : Option String)
    (abbreviations : Dictionary String) (entry : Members) : Prop where
  naming : config.IsOn override .naming → SpelledOut abbreviations (textAt "name" entry)
  security : config.IsOn override .security → Hardened entry
  cost : config.IsOn override .cost → ∀ sku,
    Value.At ["sku", "name"] (.object entry) (.string sku) → ¬ config.CountsOversized sku

/-! ## When a check finds nothing -/

theorem Naming.abbreviates_eq_false_iff {name abbreviation full : String} :
    abbreviates name abbreviation full = false ↔
      ¬ abbreviation.toList <:+: name.toList ∨ full.toList <:+: name.toList := by
  rw [← occursIn_iff, ← occursIn_iff, abbreviates]
  cases occursIn abbreviation name <;> cases occursIn full name <;> simp

theorem Naming.findings_eq_nil_iff {abbreviations : Dictionary String} {doc : Document} :
    findings abbreviations doc = [] ↔ ∀ r ∈ doc, SpelledOut abbreviations r.name := by
  refine flatMap_zipIdx_eq_nil_iff fun r i => ?_
  show findingsAt abbreviations i r = [] ↔ _
  rw [findingsAt, List.map_eq_nil_iff, List.filter_eq_nil_iff]
  constructor
  · intro h abbreviation full hmem
    exact abbreviates_eq_false_iff.mp (Bool.eq_false_iff.mpr (h _ hmem))
  · rintro h ⟨abbreviation, full⟩ hmem
    exact Bool.eq_false_iff.mp (abbreviates_eq_false_iff.mpr (h _ _ hmem))

theorem Cost.findings_eq_nil_iff {oversized : Dictionary String} {doc : Document} :
    findings oversized doc = [] ↔
      ∀ r ∈ doc, ∀ sku, r.skuName? = some sku → ¬ (oversized.get? sku).isSome = true := by
  rw [findings, List.filterMap_eq_flatMap_toList]
  refine flatMap_zipIdx_eq_nil_iff fun r i => ?_
  show (findingAt? oversized i r).toList = [] ↔ _
  rw [Option.toList_eq_nil_iff, findingAt?]
  cases r.skuName? with
  | none => simp
  | some sku => cases h : oversized.get? sku <;> simp [h]

theorem Security.Registry.findings_eq_nil_iff {rules : Registry} {doc : Document} :
    rules.findings doc = [] ↔
      ∀ r ∈ doc, ∀ rule, rules.ruleFor? r.type = some rule → rule.violations r = [] := by
  refine flatMap_zipIdx_eq_nil_iff fun r i => ?_
  show findingsAt rules i r = [] ↔ _
  rw [findingsAt]
  cases rules.ruleFor? r.type with
  | none => simp
  | some rule => simp

theorem findings_eq_nil_iff {doc : Document} {abbreviations : Dictionary String}
    {policy : Policy} : findings doc abbreviations policy = [] ↔
      ∀ check : Check, policy.enables check = true →
        check.findings doc abbreviations policy.oversized = [] := by
  rw [findings, inOrder, List.flatMap_eq_nil_iff]
  constructor
  · intro h check hon
    simpa [hon] using h check (Check.mem_all check)
  · intro h check _
    split
    · rename_i hon
      exact h check hon
    · rfl

/-! ## The built-in rules -/

namespace Security

open StorageAccount SqlServer

theorem ruleFor?_builtin (type : String) :
    Registry.builtin.ruleFor? type =
      if occursIn StorageAccount.typeMarker type then some StorageAccount.rule
      else if occursIn SqlServer.typeMarker type then some SqlServer.rule
      else none := by
  simp only [Registry.ruleFor?, Registry.builtin, List.find?_cons, List.find?_nil,
    StorageAccount.rule, SqlServer.rule]
  cases occursIn StorageAccount.typeMarker type <;>
    cases occursIn SqlServer.typeMarker type <;> rfl

theorem enforcesHttps_iff {r : Resource} :
    enforcesHttps r = true ↔ httpsProperty r = some (.boolean true) := by
  rw [enforcesHttps]
  split
  · rename_i h
    simp [h]
  · rename_i h
    simpa using h

theorem encryptsBlobs_iff {r : Resource} :
    encryptsBlobs r = true ↔ ∃ v, blobProperty r = some v ∧ ¬ v.Unset := by
  rw [encryptsBlobs]
  cases blobProperty r with
  | none => simp
  | some v => simp [← Value.isTruthy_eq_false_iff]

theorem isPublic_iff {r : Resource} :
    isPublic r = true ↔ r.property? ["publicNetworkAccess"] = some (.string "Enabled") := by
  rw [isPublic, beq_iff_eq, bind_text?_eq_some_iff]

theorem StorageAccount.violations_eq_nil_iff {r : Resource} :
    StorageAccount.violations r = [] ↔ enforcesHttps r = true ∧ encryptsBlobs r = true := by
  rw [StorageAccount.violations]
  cases enforcesHttps r <;> cases encryptsBlobs r <;> simp

theorem SqlServer.violations_eq_nil_iff {r : Resource} :
    SqlServer.violations r = [] ↔ ¬ isPublic r = true := by
  rw [SqlServer.violations]
  cases isPublic r <;> simp

/-- The rule for its type sees no violation in an entry that is hardened, and only there. -/
theorem violations_ofMembers_eq_nil_iff {entry : Members} :
    (∀ rule, Registry.builtin.ruleFor? (textAt "type" entry) = some rule →
      rule.violations (.ofMembers entry) = []) ↔ Hardened entry := by
  have hhttps : httpsProperty (.ofMembers entry) = some (.boolean true) ↔ _ :=
    Resource.property?_ofMembers_iff (by simp)
  have hblobs : ∀ v, blobProperty (.ofMembers entry) = some v ↔ _ := fun v =>
    Resource.property?_ofMembers_iff (by simp)
  have hpublic : (Resource.ofMembers entry).property? ["publicNetworkAccess"] = _ ↔ _ :=
    Resource.property?_ofMembers_iff (w := .string "Enabled") (by simp)
  rw [ruleFor?_builtin]
  split
  · rename_i hstorage
    have hmarked := occursIn_iff.mp hstorage
    have hiff : StorageAccount.violations (.ofMembers entry) = [] ↔ StorageHardened entry := by
      rw [StorageAccount.violations_eq_nil_iff, enforcesHttps_iff, encryptsBlobs_iff, hhttps]
      simp only [hblobs]
      exact ⟨fun ⟨h, b⟩ => ⟨h, b⟩, fun ⟨h, b⟩ => ⟨h, b⟩⟩
    constructor
    · intro h
      exact ⟨fun _ => hiff.mp (h _ rfl), fun hno => absurd hmarked hno⟩
    · rintro h rule hrule
      cases hrule
      exact hiff.mpr (h.storage hmarked)
  · rename_i hstorage
    have hunmarked := mt occursIn_iff.mpr hstorage
    split
    · rename_i hsql
      have hiff : SqlServer.violations (.ofMembers entry) = [] ↔ _ :=
        SqlServer.violations_eq_nil_iff.trans (not_congr (isPublic_iff.trans hpublic))
      constructor
      · intro h
        exact ⟨fun hyes => absurd hyes hunmarked, fun _ _ => hiff.mp (h _ rfl)⟩
      · rintro h rule hrule
        cases hrule
        exact hiff.mpr (h.sql hunmarked (occursIn_iff.mp hsql))
    · rename_i hsql
      constructor
      · intro _
        exact ⟨fun hyes => absurd hyes hunmarked,
          fun _ hyes => absurd (occursIn_iff.mpr hyes) hsql⟩
      · intro _ rule hrule
        cases hrule

end Security

/-! ## The evaluation of a template -/

/-- An evaluation finds nothing exactly if every entry that is an object complies. -/
theorem findings_eq_nil_iff_compliant {root : Members} {entries : List Value}
    {config : Config} {override : Option String} {abbreviations : Dictionary String}
    {policy : Policy} (hentries : Document.entries? root = some entries)
    (hpolicy : config.resolve override = .ok policy) :
    findings (Document.ofEntries entries) abbreviations policy = [] ↔
      ∀ entry, Document.Declares root (.object entry) →
        Compliant config override abbreviations entry := by
  have hmem : ∀ {r : Resource}, r ∈ Document.ofEntries entries ↔
      ∃ entry, Document.Declares root (.object entry) ∧ r = .ofMembers entry := by
    simp only [Document.mem_ofEntries_iff, Document.mem_entries_iff hentries, implies_true]
  rw [findings_eq_nil_iff]
  simp only [Config.enables_iff_isOn hpolicy]
  constructor
  · intro h entry hentry
    have hr := hmem.mpr ⟨entry, hentry, rfl⟩
    refine ⟨fun hon => ?_, fun hon => ?_, fun hon sku hsku => ?_⟩
    · exact Naming.findings_eq_nil_iff.mp (h .naming hon) _ hr
    · have hnone := Security.Registry.findings_eq_nil_iff.mp (h .security hon) _ hr
      exact Security.violations_ofMembers_eq_nil_iff.mp hnone
    · have hnone := Cost.findings_eq_nil_iff.mp (h .cost hon) _ hr
      exact fun hlisted => hnone sku (Resource.skuName?_ofMembers_iff.mpr hsku)
        ((Config.isSome_oversized_iff hpolicy sku).mpr hlisted)
  · intro h check hon
    cases check with
    | naming =>
        refine Naming.findings_eq_nil_iff.mpr fun r hr => ?_
        obtain ⟨entry, hentry, rfl⟩ := hmem.mp hr
        exact (h entry hentry).naming hon
    | security =>
        refine Security.Registry.findings_eq_nil_iff.mpr fun r hr => ?_
        obtain ⟨entry, hentry, rfl⟩ := hmem.mp hr
        exact Security.violations_ofMembers_eq_nil_iff.mpr ((h entry hentry).security hon)
    | cost =>
        refine Cost.findings_eq_nil_iff.mpr fun r hr sku hsku hsome => ?_
        obtain ⟨entry, hentry, rfl⟩ := hmem.mp hr
        exact (h entry hentry).cost hon sku (Resource.skuName?_ofMembers_iff.mp hsku)
          ((Config.isSome_oversized_iff hpolicy sku).mp hsome)

end TemplateGate
