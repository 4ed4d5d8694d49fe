/-
# `Proofs.Origin` — which entry of a template a finding comes from

A template lists its entries in an order of its own, as items of an array
or under symbolic names.  Entries that are no objects are passed over when
the document is made of them, and findings are numbered along the document.
So the index of a finding counts the objects before its entry, and not the
entries (`Document.Origin`).  It is the position of the entry as long as
everything before it is an object.

`index_points_at_other_entry` is a template in which a text comes first: the
index of the finding is then the position of a resource with another name,
at which nothing was found.
-/
import TemplateGate.Proofs.Compliance
import TemplateGate.Proofs.Json.Tokens
import TemplateGate.Proofs.Sites

namespace TemplateGate

open Json

/-! ## The entries in their order -/

/-- The entries that the root of a template lists, in their order: the items
of an array under `resources`, or the values of the members of an object. -/
inductive Document.Lists (root : Members) : List Value → Prop
  | missing : root.get? "resources" = none → Lists root []
  | null : root.get? "resources" = some .null → Lists root []
  | items {items : List Value} : root.get? "resources" = some (.array items) → Lists root items
  | members {members : Members} : root.get? "resources" = some (.object members) →
      Lists root (members.map (·.2))

theorem Document.lists_of_entries? {root : Members} {entries : List Value}
    (h : entries? root = some entries) : Lists root entries := by
  rw [entries?] at h
  split at h
  · rename_i hnone
    cases h
    exact .missing hnone
  · rename_i hnull
    cases h
    exact .null hnull
  · rename_i hitems
    cases h
    exact .items hitems
  · rename_i hmembers
    cases h
    exact .members hmembers
  · cases h

/-- Whether a value is an object. -/
def Json.Value.isObject (v : Value) : Bool := v.members?.isSome

/-- A position of what is kept of a list, and the position it is kept from:
as much is kept before it as the position says. -/
theorem exists_of_getElem?_filterMap {α β : Type} {f : α → Option β} {l : List α} {b : β} :
    ∀ {i : Nat}, (l.filterMap f)[i]? = some b →
      ∃ position a, l[position]? = some a ∧ f a = some b ∧
        (l.take position).countP (fun a => (f a).isSome) = i := by
  induction l with
  | nil =>
      intro i h
      cases h
  | cons a l ih =>
      intro i h
      cases hfa : f a with
      | none =>
          rw [List.filterMap_cons_none hfa] at h
          obtain ⟨position, a', ha', hb, hcount⟩ := ih h
          refine ⟨position + 1, a', ha', hb, ?_⟩
          rw [List.take_succ_cons, List.countP_cons_of_neg (by simp [hfa]), hcount]
      | some b' =>
          rw [List.filterMap_cons_some hfa] at h
          cases i with
          | zero =>
              cases h
              exact ⟨0, a, rfl, hfa, rfl⟩
          | succ i =>
              obtain ⟨position, a', ha', hb, hcount⟩ := ih h
              refine ⟨position + 1, a', ha', hb, ?_⟩
              rw [List.take_succ_cons, List.countP_cons_of_pos (by simp [hfa]), hcount]

/-! ## Where a finding comes from -/

/-- A reference is to the resource that the entry at a position describes. -/
structure Document.Origin (entries : List Value) (ref : ResourceRef) (position : Nat)
    (entry : Members) : Prop where
  stands : entries[position]? = some (.object entry)
  name : ref.name = textAt "name" entry
  type : ref.type = textAt "type" entry
  /-- The index counts the objects before the entry. -/
  index : ref.index.toNat = (entries.take position).countP Value.isObject
  /-- It is the position of the entry exactly if all entries before are objects. -/
  exact_iff : ref.index.toNat = position ↔ ∀ v ∈ entries.take position, v.isObject = true

/-- A resource of a document describes an entry, and stands behind as many
resources as there are objects before it. -/
theorem Document.origin_of_getElem? {entries : List Value} (hentries : entries.length < 2 ^ 32)
    {index : Nat} {r : Resource} (hr : (ofEntries entries)[index]? = some r) :
    ∃ position entry, Origin entries (r.ref index) position entry := by
  obtain ⟨position, v, hv, hresource, hcount⟩ := exists_of_getElem?_filterMap hr
  have hlt : position < entries.length := (List.getElem?_eq_some_iff.mp hv).1
  have hobject : (fun v => (Resource.ofValue? v).isSome) = Value.isObject := by
    funext v
    cases v <;> rfl
  rw [hobject] at hcount
  have hlength : (entries.take position).length = position :=
    List.length_take_of_le (Nat.le_of_lt hlt)
  have hle : (entries.take position).countP Value.isObject ≤ (entries.take position).length :=
    List.countP_le_length
  have hword : (r.ref index).index.toNat = index := toNat_saturate_of_lt (by omega)
  cases v with
  | object entry =>
      cases hresource
      refine ⟨position, entry, hv, rfl, rfl, by rw [hword, hcount], ?_⟩
      rw [hword, ← hcount, ← List.countP_eq_length, hlength]
  | _ => cases hresource

/-- What is found in a template refers to one of its entries, by name, by
type, and by the number of objects before it. -/
theorem index_counts_objects {text : String} {doc : Document}
    (hparse : Document.parse text = .ok doc) :
    ∃ root entries, Json.parse text = .ok (.object root) ∧ Document.Lists root entries ∧
      (entries.length < 2 ^ 32 → ∀ (abbreviations : Dictionary String) (policy : Policy),
        ∀ f ∈ (evaluate doc abbreviations policy).findings, ∃ ref position entry,
          f.resource = some ref ∧ Document.Origin entries ref position entry) := by
  obtain ⟨root, entries, hroot, hentries, rfl⟩ := Document.eq_of_parse hparse
  refine ⟨root, entries, hroot, Document.lists_of_entries? hentries, ?_⟩
  intro hsmall abbreviations policy f hf
  obtain ⟨c, index, r, -, hr, hf⟩ := mem_findings_iff.mp hf
  obtain ⟨site, -, -, hposition, hdescribes⟩ :=
    exists_mem_of_forall₂ (c.forall₂_sitesAt abbreviations policy.oversized index r) f hf
  obtain ⟨position, entry, horigin⟩ := Document.origin_of_getElem? hsmall hr
  exact ⟨r.ref index, position, entry, hposition ▸ hdescribes.resource, horigin⟩

/-- The entry of a SQL server. -/
def serverEntry (name access : String) : Members := [
  ("name", .string name), ("type", .string "Microsoft.Sql/servers"),
  ("properties", .object [("publicNetworkAccess", .string access)])]

/-- A text, a server that public networks cannot reach, and one that they can. -/
def notedEntries : List Value :=
  [.string "note", .object (serverEntry "inner" "Disabled"),
    .object (serverEntry "outer" "Enabled")]

def notedRoot : Members := [("resources", .array notedEntries)]

theorem writable_notedRoot : (Value.object notedRoot).Writable maxDepth := by
  have htext := Value.writable_string
  have hserver : ∀ name access, (Value.object (serverEntry name access)).Writable 3 := by
    intro name access
    refine Value.writable_object (by simp [serverEntry, Members.keys]) ?_
    simp only [serverEntry, List.forall_mem_cons]
    exact ⟨htext _ _, htext _ _, Value.writable_singleton (htext _ _), by simp⟩
  refine Value.writable_singleton (Value.writable_array ?_)
  simp only [notedEntries, List.forall_mem_cons]
  exact ⟨htext _ _, (hserver _ _).mono (by decide), (hserver _ _).mono (by decide), by simp⟩

theorem parse_notedRoot : Document.parse (Value.object notedRoot).compact =
    .ok (Document.ofEntries notedEntries) := by
  rw [Document.parse, parse_compact writable_notedRoot]
  rfl

theorem finding_mem_notedEntries :
    Security.finding "sql_server" 1 (.ofMembers (serverEntry "outer" "Enabled"))
        Security.SqlServer.publicViolation ∈
      (evaluate (Document.ofEntries notedEntries) .empty
        ⟨"strict", ⟨true, true, true⟩, defaultOversized⟩).findings := by
  refine mem_findings_iff.mpr
    ⟨.security, 1, .ofMembers (serverEntry "outer" "Enabled"), rfl, rfl, ?_⟩
  show _ ∈ Security.Registry.builtin.findingsAt 1 (.ofMembers (serverEntry "outer" "Enabled"))
  rw [Security.Registry.findingsAt, Security.ruleFor?_builtin, if_neg (by decide +kernel),
    if_pos (by decide +kernel)]
  exact List.mem_singleton_self _

/-- The finding at the second of two servers has the position of the first. -/
theorem index_points_at_other_entry :
    Document.parse (Value.object notedRoot).compact = .ok (Document.ofEntries notedEntries) ∧
      Document.Lists notedRoot notedEntries ∧ notedEntries.length < 2 ^ 32 ∧
      ∃ f ∈ (evaluate (Document.ofEntries notedEntries) .empty
          ⟨"strict", ⟨true, true, true⟩, defaultOversized⟩).findings,
        ∃ ref, f.resource = some ref ∧ ref.name = "outer" ∧
          notedEntries[ref.index.toNat]? = some (.object (serverEntry "inner" "Disabled")) ∧
          ¬ ∃ entry, notedEntries[ref.index.toNat]? = some (.object entry) ∧
            textAt "name" entry = ref.name := by
  refine ⟨parse_notedRoot, .items rfl, by decide, _, finding_mem_notedEntries, _, rfl, rfl, rfl, ?_⟩
  rintro ⟨entry, hentry, hname⟩
  cases hentry
  exact absurd hname (by decide)

/-- By the objects before it, the finding is traced to the second server. -/
theorem index_counts_objects_of_notedRoot :
    Document.parse (Value.object notedRoot).compact = .ok (Document.ofEntries notedEntries) ∧
      ∃ entry, Document.Origin notedEntries ⟨1, "outer", "Microsoft.Sql/servers"⟩ 2 entry := by
  refine ⟨parse_notedRoot, ?_⟩
  obtain ⟨root, entries, hroot, hlists, horigin⟩ := index_counts_objects parse_notedRoot
  rw [parse_compact writable_notedRoot] at hroot
  cases hroot
  have hentries : entries = notedEntries := by
    cases hlists <;> simp_all [notedRoot, Members.get?]
  subst hentries
  obtain ⟨ref, position, entry, hresource, horigin⟩ :=
    horigin (by decide) .empty _ _ finding_mem_notedEntries
  cases hresource
  have hposition : position = 2 := by
    rcases position with _ | _ | _ | n
    · exact absurd horigin.stands (by simp [notedEntries])
    · exact absurd horigin.index (by decide)
    · rfl
    · exact absurd horigin.stands (by simp [notedEntries])
  subst hposition
  exact ⟨entry, horigin⟩

end TemplateGate
