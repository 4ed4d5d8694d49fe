/-
# `Proofs.Remedy` — following the help of a finding

The help of a security finding says which property to set.  `Code.remedy?`
has the path of that property and the value, and `Document.remedied` is the
document in which the resource of a finding has it set, and nothing else is
changed.

Following the help of a finding removes that finding and no other, and adds
none (`remedy_removes_finding`).  The two rules for storage accounts make
this a statement with content: their properties lie on paths that part, so
the help of one does not touch what the other reads or reports.
-/
import TemplateGate.Proofs.Compliance
import TemplateGate.Proofs.Isolation
import TemplateGate.Proofs.Json.Edit

namespace TemplateGate

open Json

/-- The property that the help of a code says to set, and its value. -/
def Code.remedy? : Code → Option (List String × Value)
  | .storageHttpsNotEnforced => some (["supportsHttpsTrafficOnly"], .boolean true)
  | .storageBlobEncryptionDisabled =>
      some (["encryption", "services", "blob", "enabled"], .boolean true)
  | .sqlPublicNetworkAccess => some (["publicNetworkAccess"], .string "Disabled")
  | _ => none

/-- A resource for which the help of a finding with the given code was followed. -/
def Resource.remedied (code : String) (r : Resource) : Resource :=
  match (Code.ofText? code).bind Code.remedy? with
  | some (path, new) => r.setProperty path new
  | none => r

/-- A document in which the help of a finding was followed, at its resource. -/
def Document.remedied (doc : Document) (f : Finding) : Document :=
  match f.resource with
  | some ref => doc.modify ref.index.toNat (Resource.remedied f.code)
  | none => doc

/-! ## One resource -/

theorem Resource.remedied_eq (code : String) (r : Resource) :
    (∃ path new, r.remedied code = r.setProperty path new) ∨ r.remedied code = r := by
  rw [remedied]
  split
  · exact .inl ⟨_, _, rfl⟩
  · exact .inr rfl

theorem Check.readsAlike_remedied {c : Check} (h : c ≠ .security) (code : String) (r : Resource) :
    c.ReadsAlike r (r.remedied code) := by
  rcases r.remedied_eq code with ⟨path, new, heq⟩ | heq
  · rw [heq]
    exact ⟨rfl, rfl, fun hc => absurd hc h, fun _ => rfl⟩
  · rw [heq]
    exact ⟨rfl, rfl, fun _ => rfl, fun _ => rfl⟩

namespace Security

theorem StorageAccount.violations_remedied_https (r : Resource) :
    violations (r.remedied Code.storageHttpsNotEnforced.text) =
      if encryptsBlobs r then [] else [blobViolation r] := by
  have hset : httpsProperty (r.remedied Code.storageHttpsNotEnforced.text) =
      some (.boolean true) := Resource.property?_setProperty (by simp)
  have hkept : blobProperty (r.remedied Code.storageHttpsNotEnforced.text) = blobProperty r :=
    Resource.property?_setProperty_of_not_prefix (by decide) (by decide)
  obtain ⟨hencrypts, hblob⟩ := blob_congr hkept
  rw [violations, enforcesHttps_iff.mpr hset, hencrypts, hblob]
  rfl

theorem StorageAccount.violations_remedied_blob (r : Resource) :
    violations (r.remedied Code.storageBlobEncryptionDisabled.text) =
      if enforcesHttps r then [] else [httpsViolation r] := by
  have hset : blobProperty (r.remedied Code.storageBlobEncryptionDisabled.text) =
      some (.boolean true) := Resource.property?_setProperty (by simp)
  have hkept : httpsProperty (r.remedied Code.storageBlobEncryptionDisabled.text) =
      httpsProperty r := Resource.property?_setProperty_of_not_prefix (by decide) (by decide)
  obtain ⟨henforces, hhttps⟩ := https_congr hkept
  have hencrypts : encryptsBlobs (r.remedied Code.storageBlobEncryptionDisabled.text) = true := by
    rw [encryptsBlobs, hset]
    rfl
  rw [violations, hencrypts, henforces, hhttps, if_pos rfl, List.append_nil]

theorem SqlServer.violations_remedied (r : Resource) :
    violations (r.remedied Code.sqlPublicNetworkAccess.text) = [] := by
  have hset : (r.remedied Code.sqlPublicNetworkAccess.text).property? ["publicNetworkAccess"] =
      some (.string "Disabled") := Resource.property?_setProperty (by simp)
  rw [violations_eq_nil_iff, isPublic_iff, hset]
  simp

theorem StorageAccount.exists_violations_eq {r : Resource} {v : Violation}
    (hv : v ∈ violations r) : ∃ before after, violations r = before ++ v :: after ∧
      violations (r.remedied v.code) = before ++ after := by
  rw [violations] at hv
  rcases List.mem_append.mp hv with hv | hv
  · by_cases henforces : enforcesHttps r = true
    · rw [if_pos henforces] at hv
      cases hv
    · rw [if_neg henforces] at hv
      cases List.mem_singleton.mp hv
      refine ⟨[], if encryptsBlobs r then [] else [blobViolation r], ?_, ?_⟩
      · rw [violations, if_neg henforces]
        rfl
      · exact violations_remedied_https r
  · by_cases hencrypts : encryptsBlobs r = true
    · rw [if_pos hencrypts] at hv
      cases hv
    · rw [if_neg hencrypts] at hv
      cases List.mem_singleton.mp hv
      refine ⟨if enforcesHttps r then [] else [httpsViolation r], [], ?_, ?_⟩
      · rw [violations, if_neg hencrypts]
      · rw [List.append_nil]
        exact violations_remedied_blob r

/-- Following the help of a violation of a built-in rule removes it, and leaves
what else the rule has seen as it is. -/
theorem exists_violations_eq {rule : Rule} {r : Resource} {v : Violation}
    (hrule : rule ∈ Registry.builtin) (hv : v ∈ rule.violations r) :
    ∃ before after, rule.violations r = before ++ v :: after ∧
      rule.violations (r.remedied v.code) = before ++ after := by
  rcases List.mem_cons.mp hrule with rfl | hrule
  · exact StorageAccount.exists_violations_eq hv
  · cases List.mem_singleton.mp hrule
    have hviolation := SqlServer.eq_of_mem_violations hv
    subst hviolation
    refine ⟨[], [], ?_, SqlServer.violations_remedied r⟩
    change SqlServer.publicViolation ∈ SqlServer.violations r at hv
    show SqlServer.violations r = [SqlServer.publicViolation]
    rw [SqlServer.violations] at hv ⊢
    split at hv
    · rename_i hpublic
      exact if_pos hpublic
    · cases hv

theorem exists_findingsAt_eq {index : Nat} {r : Resource} {f : Finding}
    (hf : f ∈ Registry.builtin.findingsAt index r) :
    ∃ before after, Registry.builtin.findingsAt index r = before ++ f :: after ∧
      Registry.builtin.findingsAt index (r.remedied f.code) = before ++ after := by
  have hname : ∀ code, r.name = (r.remedied code).name := fun code =>
    (Check.readsAlike_remedied (c := .naming) nofun code r).name
  have htype : ∀ code, r.type = (r.remedied code).type := fun code =>
    (Check.readsAlike_remedied (c := .naming) nofun code r).type
  obtain ⟨rule, v, hrule, hv, rfl⟩ := Registry.mem_findingsAt_iff.mp hf
  obtain ⟨before, after, hviolations, hremedied⟩ :=
    exists_violations_eq (List.mem_of_find?_eq_some hrule) hv
  refine ⟨before.map (finding rule.kind index r), after.map (finding rule.kind index r), ?_, ?_⟩
  · rw [Registry.findingsAt, hrule]
    show (rule.violations r).map _ = _
    rw [hviolations, List.map_append, List.map_cons]
  · show Registry.builtin.findingsAt index (r.remedied v.code) = _
    rw [Registry.findingsAt, ← htype, hrule]
    show (rule.violations (r.remedied v.code)).map _ = _
    rw [hremedied, ← List.map_append]
    exact List.map_congr_left fun w _ =>
      (finding_congr (hname v.code) (htype v.code) rule.kind index w).symm

end Security

/-! ## No finding stands twice -/

theorem Site.eq_of_describes {doc : Document} {f : Finding} {s t : Site}
    (hs : s.Describes doc f) (ht : t.Describes doc f) : s = t := by
  have hcheck : s.check = t.check := Check.id_inj.mp (hs.checkId.symm.trans ht.checkId)
  have hcode : s.code = t.code := hs.code.symm.trans ht.code
  have hposition : s.position = t.position := by
    obtain ⟨_, ref, -, href, hindex, -⟩ := hs.located
    obtain ⟨_, ref', -, href', hindex', -⟩ := ht.located
    rw [href] at href'
    cases href'
    exact hindex.symm.trans hindex'
  refine eq_of_parts hcheck hposition hcode ?_
  rintro i abbreviation j abbreviation' rfl rfl
  have hdetail := (hs.detail _ _ rfl).symm.trans (ht.detail _ _ rfl)
  cases hdetail
  rfl

theorem nodup_findings {doc : Document} (hdoc : doc.length ≤ 2 ^ 32)
    (abbreviations : Dictionary String) (policy : Policy) :
    (findings doc abbreviations policy).Nodup :=
  nodup_of_forall₂ (forall₂_sites hdoc abbreviations policy) Site.eq_of_describes
    ((pairwise_sites doc abbreviations policy).imp Site.Precedes.ne)

/-! ## One document -/

variable {doc : Document} {abbreviations : Dictionary String} {policy : Policy} {f : Finding}

theorem modify_append_cons {α : Type} (g : α → α) (before : List α) (x : α) (after : List α) :
    (before ++ x :: after).modify before.length g = before ++ g x :: after := by
  induction before with
  | nil => rfl
  | cons y before ih =>
      show y :: (before ++ x :: after).modify before.length g = _
      rw [ih]
      rfl

theorem Document.remedied_append {before after : Document} {r : Resource}
    (hresource : f.resource = some (r.ref before.length)) (hlength : before.length < 2 ^ 32) :
    Document.remedied (before ++ r :: after) f = before ++ r.remedied f.code :: after := by
  rw [remedied, hresource]
  show (before ++ r :: after).modify (saturate before.length).toNat _ = _
  rw [toNat_saturate_of_lt hlength]
  exact modify_append_cons _ before r after

/-- What a check finds along a document in which one resource was replaced by
one that is the same to it. -/
theorem Check.findings_replace {c : Check} {r r' : Resource} (h : c.ReadsAlike r r')
    (before after : Document) (abbreviations oversized : Dictionary String) :
    c.findings (before ++ r :: after) abbreviations oversized =
      c.findings (before ++ r' :: after) abbreviations oversized := by
  rw [findings_eq_findingsFrom, findings_eq_findingsFrom, findingsFrom_append,
    findingsFrom_append, findingsFrom_cons, findingsFrom_cons,
    findingsAt_congr h ⟨fun _ => rfl, fun _ => rfl⟩]

theorem Check.exists_security_findings_eq {before : Document} {r : Resource}
    (after : Document) (oversized : Dictionary String)
    (hf : f ∈ Check.security.findingsAt abbreviations oversized before.length r) :
    ∃ left right,
      Check.security.findings (before ++ r :: after) abbreviations oversized =
          left ++ f :: right ∧
        Check.security.findings (before ++ r.remedied f.code :: after) abbreviations oversized =
          left ++ right := by
  obtain ⟨left, right, hat, hremedied⟩ := Security.exists_findingsAt_eq hf
  have hat : Check.security.findingsAt abbreviations oversized before.length r =
      left ++ f :: right := hat
  have hremedied : Check.security.findingsAt abbreviations oversized before.length
      (r.remedied f.code) = left ++ right := hremedied
  refine ⟨Check.security.findingsFrom 0 before abbreviations oversized ++ left,
    right ++ Check.security.findingsFrom (before.length + 1) after abbreviations oversized, ?_, ?_⟩
  · rw [findings_eq_findingsFrom, findingsFrom_append, findingsFrom_cons, Nat.zero_add, hat]
    simp only [List.append_assoc, List.cons_append]
  · rw [findings_eq_findingsFrom, findingsFrom_append, findingsFrom_cons, Nat.zero_add, hremedied]
    simp only [List.append_assoc]

/-- Following the help of a security finding removes exactly that finding. -/
theorem remedy_removes_finding (hdoc : doc.length ≤ 2 ^ 32)
    (hf : f ∈ (evaluate doc abbreviations policy).findings)
    (hcheck : f.checkId = Check.security.id) :
    ∃ before after, (evaluate doc abbreviations policy).findings = before ++ f :: after ∧
      f ∉ before ∧ f ∉ after ∧
      (evaluate (doc.remedied f) abbreviations policy).findings = before ++ after := by
  have hnodup := nodup_findings hdoc abbreviations policy
  obtain ⟨c, i, r, hon, hr, hmem⟩ := mem_findings_iff.mp hf
  obtain ⟨hid, hresource⟩ := Check.eq_of_mem_findingsAt hmem
  cases Check.id_inj.mp (hid.symm.trans hcheck)
  obtain ⟨start, rest, rfl, rfl⟩ := exists_eq_append_cons_of_getElem? hr
  rw [List.length_append, List.length_cons] at hdoc
  have hreplace : ∀ d : Check, d ≠ .security →
      d.findings (start ++ r :: rest) abbreviations policy.oversized =
        d.findings (start ++ r.remedied f.code :: rest) abbreviations policy.oversized :=
    fun d hd => Check.findings_replace (Check.readsAlike_remedied hd f.code r) _ _ _ _
  obtain ⟨left, right, hold, hnew⟩ := Check.exists_security_findings_eq rest policy.oversized
    hmem
  show ∃ before after, findings _ abbreviations policy = before ++ f :: after ∧
    f ∉ before ∧ f ∉ after ∧ findings (Document.remedied _ f) abbreviations policy = before ++ after
  rw [Document.remedied_append hresource (by omega), findings_eq_append, findings_eq_append,
    ← hreplace .naming nofun, ← hreplace .cost nofun, if_pos hon, if_pos hon, hold, hnew]
  rw [findings_eq_append, if_pos hon, hold] at hnodup
  generalize (if policy.enables .naming then _ else _) = naming at hnodup ⊢
  generalize (if policy.enables .cost then _ else _) = cost at hnodup ⊢
  have hsplit : naming ++ (left ++ f :: right ++ cost) =
      (naming ++ left) ++ f :: (right ++ cost) := by
    simp only [List.append_assoc, List.cons_append]
  rw [hsplit] at hnodup ⊢
  have habsent : f ∉ (naming ++ left) ++ (right ++ cost) :=
    (List.nodup_cons.mp (List.nodup_middle.mp hnodup)).1
  rw [List.mem_append, not_or] at habsent
  refine ⟨naming ++ left, right ++ cost, rfl, habsent.1, habsent.2, ?_⟩
  simp only [List.append_assoc]

/-- A storage account with a text where the encryption of blobs is looked for. -/
def looseAccount : Resource := ⟨"stgdata", "Microsoft.Storage/storageAccounts",
  [("encryption", .string "on"), ("kind", .string "StorageV2")], none⟩

/-- The finding about its blobs. -/
def looseFinding : Finding := Security.finding Security.StorageAccount.rule.kind 0 looseAccount
  (Security.StorageAccount.blobViolation looseAccount)

theorem looseFinding_mem : looseFinding ∈ (evaluate [looseAccount] .empty
    ⟨"security-only", ⟨false, true, false⟩, .empty⟩).findings := by
  refine mem_findings_iff.mpr ⟨.security, 0, looseAccount, rfl, rfl, ?_⟩
  have hrule : Security.Registry.builtin.ruleFor? looseAccount.type =
      some Security.StorageAccount.rule := by
    rw [Security.ruleFor?_builtin, if_pos (by decide)]
  show looseFinding ∈ Security.Registry.builtin.findingsAt 0 looseAccount
  rw [Security.Registry.findingsAt, hrule]
  refine List.mem_map.mpr ⟨Security.StorageAccount.blobViolation looseAccount, ?_, rfl⟩
  exact List.mem_append_right _ (List.mem_singleton_self _)

/-- The account keeps the finding about HTTPS. -/
theorem remedy_of_looseAccount :
    [looseAccount].length ≤ 2 ^ 32 ∧ looseFinding.checkId = Check.security.id ∧
      ∃ before after,
        (evaluate [looseAccount] .empty ⟨"security-only", ⟨false, true, false⟩, .empty⟩).findings =
            before ++ looseFinding :: after ∧
          looseFinding ∉ before ∧ looseFinding ∉ after ∧
          (evaluate (Document.remedied [looseAccount] looseFinding) .empty
            ⟨"security-only", ⟨false, true, false⟩, .empty⟩).findings = before ++ after := by
  have hdoc : [looseAccount].length ≤ 2 ^ 32 := by decide
  exact ⟨hdoc, rfl, remedy_removes_finding hdoc looseFinding_mem rfl⟩

end TemplateGate
