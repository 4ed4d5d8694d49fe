/-
# `Proofs.Isolation` — checks and resources do not influence one another

What a check finds at a resource depends on that resource, and of it only
on what the check reads (`Check.ReadsAlike`), on the table of the check
(`Check.SharesTable`), and on the position, which shows in two places of a
finding: the index of its reference, and the fingerprint.  `Finding.relocate`
changes just these two, so a finding that has moved with its resource is the
relocated one (`Check.findingsAt_relocate`).

From this follow three laws, collected in `Check.Isolated`: findings at two
positions agree if the resources there do, findings of two documents put
together are those of each, shifted, and reordering a document reorders what
is found in it.
-/
import Mathlib.Data.List.Perm.Basic
import TemplateGate.Proofs.Fingerprint

namespace TemplateGate

open Json Text

variable {a a' oversized oversized' : Dictionary String} {r r' : Resource}

/-! ## What a check reads -/

/-- Two resources are the same in what a check reads of them. -/
structure Check.ReadsAlike (c : Check) (r r' : Resource) : Prop where
  name : r.name = r'.name
  type : r.type = r'.type
  properties : c = .security → r.properties = r'.properties
  sku : c = .cost → r.skuName? = r'.skuName?

/-- A check that looks things up in a table has the same one in two runs. -/
structure Check.SharesTable (c : Check) (a oversized a' oversized' : Dictionary String) :
    Prop where
  abbreviations : c = .naming → a = a'
  oversized : c = .cost → oversized = oversized'

theorem Resource.property?_congr (h : r.properties = r'.properties) (path : List String) :
    r.property? path = r'.property? path := by
  rw [property?, property?, h]

namespace Security

theorem StorageAccount.https_congr (h : httpsProperty r = httpsProperty r') :
    enforcesHttps r = enforcesHttps r' ∧ httpsViolation r = httpsViolation r' := by
  constructor
  · rw [enforcesHttps, enforcesHttps, h]
  · rw [httpsViolation, httpsViolation, h]

theorem StorageAccount.blob_congr (h : blobProperty r = blobProperty r') :
    encryptsBlobs r = encryptsBlobs r' ∧ blobViolation r = blobViolation r' := by
  constructor
  · rw [encryptsBlobs, encryptsBlobs, h]
  · rw [blobViolation, blobViolation, h]

theorem StorageAccount.violations_congr (hhttps : httpsProperty r = httpsProperty r')
    (hblob : blobProperty r = blobProperty r') : violations r = violations r' := by
  obtain ⟨henforces, hhttps⟩ := https_congr hhttps
  obtain ⟨hencrypts, hblob⟩ := blob_congr hblob
  rw [violations, violations, henforces, hhttps, hencrypts, hblob]

theorem SqlServer.violations_congr
    (h : r.property? ["publicNetworkAccess"] = r'.property? ["publicNetworkAccess"]) :
    violations r = violations r' := by
  rw [violations, violations, isPublic, isPublic, h]

theorem violations_congr {rule : Rule} (hrule : rule ∈ Registry.builtin)
    (h : r.properties = r'.properties) : rule.violations r = rule.violations r' := by
  rcases List.mem_cons.mp hrule with rfl | hrule
  · exact StorageAccount.violations_congr (Resource.property?_congr h _)
      (Resource.property?_congr h _)
  · rw [List.mem_singleton.mp hrule]
    exact SqlServer.violations_congr (Resource.property?_congr h _)

theorem finding_congr (hname : r.name = r'.name) (htype : r.type = r'.type) (kind : String)
    (index : Nat) (v : Violation) : finding kind index r v = finding kind index r' v := by
  simp only [finding, payload, Resource.ref, hname, htype]

end Security

theorem Check.findingsAt_congr {c : Check} (hreads : c.ReadsAlike r r')
    (htable : c.SharesTable a oversized a' oversized') (index : Nat) :
    c.findingsAt a oversized index r = c.findingsAt a' oversized' index r' := by
  have hname := hreads.name
  have htype := hreads.type
  cases c with
  | naming =>
      rw [htable.abbreviations rfl]
      show Naming.findingsAt a' index r = Naming.findingsAt a' index r'
      simp only [Naming.findingsAt, Naming.finding, Resource.ref, hname, htype]
  | security =>
      show Security.Registry.findingsAt _ index r = Security.Registry.findingsAt _ index r'
      rw [Security.Registry.findingsAt, Security.Registry.findingsAt, htype]
      cases hrule : Security.Registry.builtin.ruleFor? r'.type with
      | none => rfl
      | some rule =>
          show (rule.violations r).map _ = (rule.violations r').map _
          rw [Security.violations_congr (List.mem_of_find?_eq_some hrule) (hreads.properties rfl)]
          exact List.map_congr_left fun v _ => Security.finding_congr hname htype _ _ v
  | cost =>
      rw [htable.oversized rfl]
      show (Cost.findingAt? oversized' index r).toList =
        (Cost.findingAt? oversized' index r').toList
      simp only [Cost.findingAt?, Cost.finding, Resource.ref, hname, htype, hreads.sku rfl]

/-! ## Findings at another position -/

/-- A finding as it is at another position: the index of the reference is the
position, and the fingerprint that of the identity there. -/
def Finding.relocate (index : Nat) (f : Finding) : Finding :=
  { f with
    resource := f.resource.map fun ref => { ref with index := UInt32.ofNat index }
    fingerprint := f.resource.map fun ref =>
      (⟨f.checkId, f.code, index, ref.name, f.detail?⟩ : Identity).fingerprint }

/-- What a check finds at a resource is the same at every position, but for
the index and the fingerprint. -/
theorem Check.findingsAt_relocate (c : Check) (a oversized : Dictionary String) (i : Nat) {j : Nat}
    (hj : j < 2 ^ 32) (r : Resource) : c.findingsAt a oversized j r =
      (c.findingsAt a oversized i r).map (Finding.relocate j) := by
  have href : ∀ index, r.ref index = ⟨saturate index, r.name, r.type⟩ := fun _ => rfl
  cases c with
  | naming =>
      show Naming.findingsAt a j r = (Naming.findingsAt a i r).map _
      rw [Naming.findingsAt, Naming.findingsAt, List.map_map]
      refine List.map_congr_left fun e _ => ?_
      show _ = Finding.relocate j (Naming.finding i r e.1 e.2)
      rw [Naming.finding, href, saturate_of_lt hj]
      rfl
  | security =>
      show Security.Registry.findingsAt _ j r = (Security.Registry.findingsAt _ i r).map _
      rw [Security.Registry.findingsAt, Security.Registry.findingsAt]
      cases Security.Registry.builtin.ruleFor? r.type with
      | none => rfl
      | some rule =>
          show (rule.violations r).map _ = ((rule.violations r).map _).map _
          rw [List.map_map]
          refine List.map_congr_left fun v _ => ?_
          show _ = Finding.relocate j (Security.finding rule.kind i r v)
          rw [Security.finding, href, saturate_of_lt hj]
          rfl
  | cost =>
      show (Cost.findingAt? oversized j r).toList = (Cost.findingAt? oversized i r).toList.map _
      rw [Cost.findingAt?, Cost.findingAt?]
      cases r.skuName? with
      | none => rfl
      | some sku =>
          cases hget : oversized.get? sku with
          | none => simp [hget]
          | some recommendation =>
              simp only [Option.bind_eq_bind, Option.bind_some, hget]
              show [Cost.finding j r sku recommendation] =
                [Finding.relocate j (Cost.finding i r sku recommendation)]
              rw [Cost.finding, href, saturate_of_lt hj]
              rfl

/-- A finding as it is a number of positions later. -/
def Finding.shift (offset : Nat) (f : Finding) : Finding :=
  f.relocate (offset + f.resource.elim 0 fun ref => ref.index.toNat)

theorem Check.eq_of_mem_findingsAt {c : Check} {index : Nat} {f : Finding}
    (hf : f ∈ c.findingsAt a oversized index r) :
    f.checkId = c.id ∧ f.resource = some (r.ref index) := by
  obtain ⟨site, hmakes⟩ := exists_makes hf
  cases hmakes with
  | naming => exact ⟨rfl, rfl⟩
  | security => exact ⟨rfl, rfl⟩
  | cost => exact ⟨rfl, rfl⟩

theorem Check.shift_eq_relocate {c : Check} {index offset : Nat} {f : Finding}
    (hindex : index < 2 ^ 32) (hf : f ∈ c.findingsAt a oversized index r) :
    f.shift offset = f.relocate (offset + index) := by
  rw [Finding.shift, (eq_of_mem_findingsAt hf).2, Option.elim_some]
  show f.relocate (offset + (saturate index).toNat) = _
  rw [toNat_saturate_of_lt hindex]

/-! ## Along a document -/

/-- What a check finds along resources whose first has a given position. -/
def Check.findingsFrom (c : Check) (start : Nat) (doc : Document)
    (a oversized : Dictionary String) : List Finding :=
  (doc.zipIdx start).flatMap fun e => c.findingsAt a oversized e.2 e.1

namespace Check

variable {c : Check} {start i : Nat} {doc doc' : Document} {f : Finding}

theorem findings_eq_findingsFrom (c : Check) (doc : Document) (a oversized : Dictionary String) :
    c.findings doc a oversized = c.findingsFrom 0 doc a oversized :=
  c.findings_eq_flatMap doc a oversized

theorem findingsFrom_cons (c : Check) (start : Nat) (r : Resource) (doc : Document)
    (a oversized : Dictionary String) : c.findingsFrom start (r :: doc) a oversized =
      c.findingsAt a oversized start r ++ c.findingsFrom (start + 1) doc a oversized := by
  rw [findingsFrom, List.zipIdx_cons, List.flatMap_cons, findingsFrom]

theorem findingsFrom_append (c : Check) (start : Nat) (doc doc' : Document)
    (a oversized : Dictionary String) : c.findingsFrom start (doc ++ doc') a oversized =
      c.findingsFrom start doc a oversized ++
        c.findingsFrom (start + doc.length) doc' a oversized := by
  rw [findingsFrom, List.zipIdx_append, List.flatMap_append, findingsFrom, findingsFrom]

theorem exists_of_mem_findingsFrom (h : f ∈ c.findingsFrom start doc a oversized) :
    ∃ i r, doc[i]? = some r ∧ f ∈ c.findingsAt a oversized (start + i) r := by
  obtain ⟨⟨r, index⟩, hmem, hf⟩ := List.mem_flatMap.mp h
  obtain ⟨hle, hr⟩ := List.mk_mem_zipIdx_iff_le_and_getElem?_sub.mp hmem
  refine ⟨index - start, r, hr, ?_⟩
  rw [Nat.add_sub_cancel' hle]
  exact hf

/-- Findings along resources that follow others are shifted by their number. -/
theorem findingsFrom_eq_map_shift (h : start + doc.length ≤ 2 ^ 32) :
    c.findingsFrom start doc a oversized =
      (c.findings doc a oversized).map (Finding.shift start) := by
  rw [findings_eq_flatMap, List.map_flatMap, findingsFrom, List.zipIdx_eq_map_add,
    List.flatMap_map]
  refine List.flatMap_congr fun e he => ?_
  have hindex : e.2 < doc.length := (List.getElem?_eq_some_iff.mp
    (List.mk_mem_zipIdx_iff_getElem?.mp he)).1
  show c.findingsAt a oversized (start + e.2) e.1 = _
  rw [c.findingsAt_relocate a oversized e.2 (by omega)]
  exact List.map_congr_left fun f hf => (shift_eq_relocate (by omega) hf).symm

end Check

/-! ## Findings of one check, at one position -/

/-- The findings of a check among all findings of an evaluation. -/
def Check.among (c : Check) (fs : List Finding) : List Finding :=
  fs.filter fun f => f.checkId = c.id

/-- The findings of a check at a position among all findings of an evaluation. -/
def Check.amongAt (c : Check) (index : Nat) (fs : List Finding) : List Finding :=
  (c.among fs).filter fun f => f.resource.any fun ref => ref.index.toNat = index

theorem Check.checkId_of_mem_findings {c : Check} {doc : Document} {f : Finding}
    (h : f ∈ c.findings doc a oversized) : f.checkId = c.id := by
  rw [findings_eq_findingsFrom] at h
  obtain ⟨i, r, -, hf⟩ := exists_of_mem_findingsFrom h
  exact (eq_of_mem_findingsAt hf).1

theorem findings_eq_append (doc : Document) (a : Dictionary String) (p : Policy) :
    findings doc a p =
      (if p.enables .naming then Check.naming.findings doc a p.oversized else []) ++
        ((if p.enables .security then Check.security.findings doc a p.oversized else []) ++
          (if p.enables .cost then Check.cost.findings doc a p.oversized else [])) := by
  simp [findings, inOrder, Check.all]

theorem filter_findings (test : String → Bool) (doc : Document) (a : Dictionary String)
    (p : Policy) : (findings doc a p).filter (fun f => test f.checkId) =
      inOrder fun c =>
        if p.enables c && test c.id then c.findings doc a p.oversized else [] := by
  rw [findings, inOrder, inOrder, List.filter_flatMap]
  refine List.flatMap_congr fun c _ => ?_
  have hid : ∀ f ∈ c.findings doc a p.oversized, test f.checkId = test c.id := by
    intro f hf
    rw [Check.checkId_of_mem_findings hf]
  cases p.enables c with
  | false => rfl
  | true =>
      cases htest : test c.id with
      | false =>
          refine List.filter_eq_nil_iff.mpr fun f hf => ?_
          rw [hid f hf, htest]
          exact Bool.false_ne_true
      | true => exact List.filter_eq_self.mpr fun f hf => (hid f hf).trans htest

theorem among_findings (c : Check) (doc : Document) (a : Dictionary String) (p : Policy) :
    c.among (findings doc a p) = if p.enables c then c.findings doc a p.oversized else [] := by
  have hothers : ∀ d : Check, (d.id = c.id) = (d = c) := fun d => propext Check.id_inj
  rw [Check.among, filter_findings (fun id => id = c.id)]
  simp only [inOrder, Check.all, hothers]
  cases c <;> simp

theorem amongAt_findings {c : Check} {i : Nat} {doc : Document} {p : Policy}
    (hdoc : doc.length ≤ 2 ^ 32) (hon : p.enables c = true) (hr : doc[i]? = some r) :
    c.amongAt i (findings doc a p) = c.findingsAt a p.oversized i r := by
  rw [Check.amongAt, among_findings, if_pos hon, Check.findings_eq_flatMap]
  exact filter_flatMap_ref hdoc (fun _ _ hf => (Check.eq_of_mem_findingsAt hf).2) hr

/-! ## Isolation -/

/-- A check is isolated from the other checks, and resources are from one another. -/
structure Check.Isolated (c : Check) : Prop where
  /-- Findings at two positions, of the same or of two evaluations, agree if
  the resources there and the tables of the check do; nothing else counts.
  They differ in index and fingerprint, and only if the positions do. -/
  located : ∀ {doc doc' : Document} {a a' : Dictionary String} {p p' : Policy} {i j : Nat}
    {r r' : Resource}, doc.length ≤ 2 ^ 32 → doc'.length ≤ 2 ^ 32 → p.enables c = true →
      p'.enables c = true → c.SharesTable a p.oversized a' p'.oversized → doc[i]? = some r →
        doc'[j]? = some r' → c.ReadsAlike r r' →
          c.amongAt j (evaluate doc' a' p').findings =
              (c.amongAt i (evaluate doc a p).findings).map (Finding.relocate j) ∧
            (i = j → c.amongAt i (evaluate doc a p).findings =
              c.amongAt i (evaluate doc' a' p').findings)
  /-- Two documents put together have the findings of the first, and those of
  the second shifted by the length of the first. -/
  append : ∀ {doc doc' : Document} (a : Dictionary String) (p : Policy),
    doc.length + doc'.length ≤ 2 ^ 32 →
      c.among (evaluate (doc ++ doc') a p).findings =
        c.among (evaluate doc a p).findings ++
          (c.among (evaluate doc' a p).findings).map (Finding.shift doc.length)
  /-- Resources in another order have the same findings in another order, up
  to index and fingerprint: moved to one position they are the same. -/
  perm : ∀ {doc doc' : Document} (a : Dictionary String) (p : Policy), doc.Perm doc' →
    ((c.among (evaluate doc a p).findings).map (Finding.relocate 0)).Perm
      ((c.among (evaluate doc' a p).findings).map (Finding.relocate 0))

theorem Check.map_relocate_findings (c : Check) (doc : Document) :
    (c.findings doc a oversized).map (Finding.relocate 0) =
      doc.flatMap (c.findingsAt a oversized 0) := by
  have hfst := List.flatMap_map Prod.fst (c.findingsAt a oversized 0) doc.zipIdx
  rw [List.zipIdx_map_fst] at hfst
  rw [findings_eq_flatMap, List.map_flatMap, hfst]
  exact List.flatMap_congr fun e _ =>
    (c.findingsAt_relocate a oversized e.2 (by decide) e.1).symm

theorem checks_isolated (c : Check) : c.Isolated where
  located := by
    intro doc doc' a a' p p' i j r r' hdoc hdoc' hon hon' htable hr hr' hreads
    have hj : j < 2 ^ 32 := Nat.lt_of_lt_of_le (List.getElem?_eq_some_iff.mp hr').1 hdoc'
    show c.amongAt j (findings doc' a' p') = (c.amongAt i (findings doc a p)).map _ ∧
      (i = j → c.amongAt i (findings doc a p) = c.amongAt i (findings doc' a' p'))
    rw [amongAt_findings hdoc hon hr, amongAt_findings hdoc' hon' hr']
    constructor
    · rw [← c.findingsAt_relocate a p.oversized i hj]
      exact (Check.findingsAt_congr hreads htable j).symm
    · rintro rfl
      rw [amongAt_findings hdoc' hon' hr']
      exact Check.findingsAt_congr hreads htable i
  append := by
    intro doc doc' a p hdoc
    show c.among (findings (doc ++ doc') a p) =
      c.among (findings doc a p) ++ (c.among (findings doc' a p)).map _
    rw [among_findings, among_findings, among_findings]
    by_cases hon : p.enables c = true
    · rw [if_pos hon, if_pos hon, if_pos hon, Check.findings_eq_findingsFrom,
        Check.findingsFrom_append, ← Check.findings_eq_findingsFrom, Nat.zero_add,
        Check.findingsFrom_eq_map_shift hdoc]
    · rw [if_neg hon, if_neg hon, if_neg hon]
      rfl
  perm := by
    intro doc doc' a p hperm
    show ((c.among (findings doc a p)).map _).Perm ((c.among (findings doc' a p)).map _)
    rw [among_findings, among_findings]
    by_cases hon : p.enables c = true
    · rw [if_pos hon, if_pos hon, Check.map_relocate_findings, Check.map_relocate_findings]
      exact hperm.flatMap_right _
    · rw [if_neg hon, if_neg hon]

/-- A storage account of which nothing is known but its SKU. -/
def bareAccount (sku : Option Members) : Resource :=
  ⟨"data", "Microsoft.Storage/storageAccounts", [], sku⟩

/-- Behind another resource, in a run with more checks and with a SKU, an
account has the findings it has alone, one position later. -/
theorem isolated_second_account :
    Check.security.ReadsAlike (bareAccount none) (bareAccount (some [("name", .string "P1V2")])) ∧
      Check.security.amongAt 1 (evaluate [⟨"vm", "Microsoft.Compute/virtualMachines", [], none⟩,
          bareAccount (some [("name", .string "P1V2")])]
        (.ofList [("vm", "machine")]) ⟨"strict", ⟨true, true, true⟩, defaultOversized⟩).findings =
      (Check.security.amongAt 0 (evaluate [bareAccount none] .empty
        ⟨"security-only", ⟨false, true, false⟩, .empty⟩).findings).map (Finding.relocate 1) := by
  have hreads : Check.security.ReadsAlike (bareAccount none)
      (bareAccount (some [("name", .string "P1V2")])) := ⟨rfl, rfl, fun _ => rfl, nofun⟩
  refine ⟨hreads, ((checks_isolated .security).located ?_ ?_ rfl rfl ⟨nofun, nofun⟩ rfl rfl
    hreads).1⟩
  · decide
  · decide

end TemplateGate
