/-
# `Proofs.Sites` — where findings come from, and in which order they stand

A `Site` is a place at which something can be found: a check, a position
in the document, and what tells several findings of one check at one
position apart.  `Site.Occurs` says, without running anything, at which
sites there is something to find; `Site.Precedes` is the order in which
reports list them; and `Site.Describes` ties a finding to its site.

The main statement, `evaluate_enumerates_sites`, is that an evaluation
lists exactly the sites at which something is found, each once and in
their order.  It is put together from what one check does at one resource
(`Check.sitesAt`), and carried along the document and the list of checks
by lemmas on lists that know nothing of findings.

For which reasons a check makes a finding is said once, by `Check.Makes`.
What holds of every finding is proved by its three cases.
-/
import Mathlib.Algebra.Group.Nat.Defs
import TemplateGate.Config.Profile
import TemplateGate.Evaluation
import TemplateGate.Proofs.Dictionary
import TemplateGate.Proofs.Lists
import TemplateGate.Proofs.Text.Utf8

namespace TemplateGate

open Json Text

/-- A place at which a check can find something. -/
inductive Site where
  | naming (position : Nat) (abbreviation : String)
  | security (position : Nat) (code : String)
  | cost (position : Nat)
  deriving DecidableEq, Repr

/-- The place of a check in the order of reports. -/
def Check.rank : Check → Nat
  | .naming => 0
  | .security => 1
  | .cost => 2

namespace Site

/-- The check that finds something at a site. -/
def check : Site → Check
  | naming .. => .naming
  | security .. => .security
  | cost .. => .cost

/-- The position of the resource of a site. -/
def position : Site → Nat
  | naming position _ => position
  | security position _ => position
  | cost position => position

/-- The code of what is found at a site. -/
def code : Site → String
  | naming .. => "abbreviation_without_full_term"
  | security _ code => code
  | cost .. => "oversized_sku"

/-- The order of reports: check by check, along the document, and at one
resource by the bytes of the abbreviation or with HTTPS before blobs. -/
inductive Precedes : Site → Site → Prop
  | check {a b : Site} : a.check.rank < b.check.rank → Precedes a b
  | position {a b : Site} : a.check = b.check → a.position < b.position → Precedes a b
  | abbreviation {i : Nat} {a b : String} : encode a < encode b →
      Precedes (.naming i a) (.naming i b)
  | violation {i : Nat} : Precedes (.security i "storage_https_not_enforced")
      (.security i "storage_blob_encryption_disabled")

/-- There is something to find at a site whose resource is given. -/
def OccursAt (abbreviations oversized : Dictionary String) (r : Resource) : Site → Prop
  | naming _ abbreviation => ∃ full, (abbreviation, full) ∈ abbreviations.entries ∧
      abbreviation.toList <:+: r.name.toList ∧ ¬ full.toList <:+: r.name.toList
  | security _ code => ∃ before rule after, Security.Registry.builtin = before ++ rule :: after ∧
      rule.appliesTo r.type = true ∧ (∀ earlier ∈ before, earlier.appliesTo r.type = false) ∧
        ∃ v ∈ rule.violations r, v.code = code
  | cost _ => ∃ sku recommendation, r.skuName? = some sku ∧
      (sku, recommendation) ∈ oversized.entries

/-- There is something to find at a site: its check is enabled, and it
occurs at the resource at its position. -/
def Occurs (doc : Document) (abbreviations : Dictionary String) (policy : Policy)
    (site : Site) : Prop :=
  policy.enables site.check = true ∧
    ∃ r, doc[site.position]? = some r ∧ site.OccursAt abbreviations policy.oversized r

/-- A finding is the one of a site, at the given resource. -/
structure DescribesAt (r : Resource) (site : Site) (f : Finding) : Prop where
  checkId : f.checkId = site.check.id
  code : f.code = site.code
  resource : f.resource = some (r.ref site.position)
  detail : ∀ i abbreviation, site = .naming i abbreviation →
    f.data.get? "abbreviation" = some (.string abbreviation)

/-- A finding is the one of a site: it has its check, its code and its
detail, and refers to the resource at its position, by index, name and type. -/
structure Describes (doc : Document) (site : Site) (f : Finding) : Prop where
  checkId : f.checkId = site.check.id
  code : f.code = site.code
  located : ∃ r ref, doc[site.position]? = some r ∧ f.resource = some ref ∧
    ref.index.toNat = site.position ∧ ref.name = r.name ∧ ref.type = r.type
  detail : ∀ i abbreviation, site = .naming i abbreviation →
    f.data.get? "abbreviation" = some (.string abbreviation)

/-- A site is known by its check, its position, its code and its abbreviation. -/
theorem eq_of_parts {s t : Site} (hcheck : s.check = t.check)
    (hposition : s.position = t.position) (hcode : s.code = t.code)
    (habbreviation : ∀ i a j b, s = .naming i a → t = .naming j b → a = b) : s = t := by
  cases s with
  | naming i a =>
      cases t with
      | naming j b =>
          cases hposition
          cases habbreviation i a i b rfl rfl
          rfl
      | _ => cases hcheck
  | security i code =>
      cases t with
      | security j code' =>
          cases hposition
          cases hcode
          rfl
      | _ => cases hcheck
  | cost i =>
      cases t with
      | cost j =>
          cases hposition
          rfl
      | _ => cases hcheck

theorem Precedes.ne {a b : Site} (h : Precedes a b) : a ≠ b := by
  rintro heq
  cases h with
  | check h => exact Nat.lt_irrefl _ (heq ▸ h)
  | position _ h => exact Nat.lt_irrefl _ (heq ▸ h)
  | abbreviation h =>
      cases heq
      exact List.lt_irrefl _ h
  | violation => exact absurd heq (by simp)

end Site

/-! ## One check at one resource -/

/-- The findings of a check at the resource at a position. -/
def Check.findingsAt (c : Check) (abbreviations oversized : Dictionary String) (index : Nat)
    (r : Resource) : List Finding :=
  match c with
  | .naming => Naming.findingsAt abbreviations index r
  | .security => Security.Registry.builtin.findingsAt index r
  | .cost => (Cost.findingAt? oversized index r).toList

theorem Check.findings_eq_flatMap (c : Check) (doc : Document)
    (abbreviations oversized : Dictionary String) :
    c.findings doc abbreviations oversized =
      doc.zipIdx.flatMap fun e => c.findingsAt abbreviations oversized e.2 e.1 := by
  cases c with
  | naming => rfl
  | security => rfl
  | cost => exact List.filterMap_eq_flatMap_toList _ _

/-- In a document whose positions fit a word, what is found at one of them
can be told from the rest by what it refers to. -/
theorem filter_flatMap_ref {f : Resource × Nat → List Finding} {doc : Document} {index : Nat}
    {r : Resource} (hdoc : doc.length ≤ 2 ^ 32)
    (href : ∀ e, ∀ finding ∈ f e, finding.resource = some (e.1.ref e.2))
    (hr : doc[index]? = some r) :
    ((doc.zipIdx.flatMap f).filter fun finding =>
      finding.resource.any fun ref => ref.index.toNat = index) = f (r, index) := by
  refine filter_flatMap_zipIdx (fun e he finding hfinding => ?_) hr
  have hlt := List.snd_lt_of_mem_zipIdx he
  have hword : (e.1.ref e.2).index.toNat = e.2 := toNat_saturate_of_lt (by omega)
  rw [href e finding hfinding, Option.any_some, decide_eq_true_eq, hword]

theorem mem_findings_iff {doc : Document} {abbreviations : Dictionary String} {policy : Policy}
    {f : Finding} : f ∈ findings doc abbreviations policy ↔
      ∃ (c : Check) (index : Nat) (r : Resource), policy.enables c = true ∧
        doc[index]? = some r ∧ f ∈ c.findingsAt abbreviations policy.oversized index r := by
  constructor
  · intro hf
    obtain ⟨c, -, hf⟩ := List.mem_flatMap.mp hf
    split at hf
    · rename_i henabled
      rw [Check.findings_eq_flatMap] at hf
      obtain ⟨⟨r, index⟩, hr, hf⟩ := List.mem_flatMap.mp hf
      exact ⟨c, index, r, henabled, List.mk_mem_zipIdx_iff_getElem?.mp hr, hf⟩
    · cases hf
  · rintro ⟨c, index, r, henabled, hr, hf⟩
    refine List.mem_flatMap.mpr ⟨c, c.mem_all, ?_⟩
    rw [if_pos henabled, Check.findings_eq_flatMap]
    exact List.mem_flatMap.mpr ⟨(r, index), List.mk_mem_zipIdx_iff_getElem?.mpr hr, hf⟩

/-- The sites of the naming check at the resource at a position. -/
def Naming.sitesAt (abbreviations : Dictionary String) (index : Nat) (r : Resource) : List Site :=
  (abbreviations.entries.filter fun e => abbreviates r.name e.1 e.2).map fun e =>
    .naming index e.1

/-- The sites of the built-in rules at the resource at a position. -/
def Security.sitesAt (index : Nat) (r : Resource) : List Site :=
  match Registry.builtin.ruleFor? r.type with
  | some rule => (rule.violations r).map fun v => .security index v.code
  | none => []

/-- The site of the cost check at the resource at a position. -/
def Cost.sitesAt (oversized : Dictionary String) (index : Nat) (r : Resource) : List Site :=
  (findingAt? oversized index r).toList.map fun _ => .cost index

/-- The sites of a check at the resource at a position. -/
def Check.sitesAt (c : Check) (abbreviations oversized : Dictionary String) (index : Nat)
    (r : Resource) : List Site :=
  match c with
  | .naming => Naming.sitesAt abbreviations index r
  | .security => Security.sitesAt index r
  | .cost => Cost.sitesAt oversized index r

theorem Security.ruleFor?_eq_some_iff {rules : Security.Registry} {type : String}
    {rule : Security.Rule} : rules.ruleFor? type = some rule ↔
      ∃ before after, rules = before ++ rule :: after ∧
        rule.appliesTo type = true ∧ ∀ earlier ∈ before, earlier.appliesTo type = false := by
  rw [Registry.ruleFor?, List.find?_eq_some_iff_append]
  simp only [Bool.not_eq_true']
  constructor
  · rintro ⟨happlies, before, after, heq, hbefore⟩
    exact ⟨before, after, heq, happlies, hbefore⟩
  · rintro ⟨before, after, heq, happlies, hbefore⟩
    exact ⟨happlies, before, after, heq, hbefore⟩

theorem Naming.mem_sitesAt_iff {abbreviations : Dictionary String} {index : Nat}
    {r : Resource} {site : Site} : site ∈ sitesAt abbreviations index r ↔
      ∃ abbreviation full, site = .naming index abbreviation ∧
        (abbreviation, full) ∈ abbreviations.entries ∧
          abbreviation.toList <:+: r.name.toList ∧ ¬ full.toList <:+: r.name.toList := by
  simp only [sitesAt, List.mem_map, List.mem_filter, abbreviates, Bool.and_eq_true,
    Bool.not_eq_true', ← Bool.not_eq_true, occursIn_iff]
  constructor
  · rintro ⟨⟨abbreviation, full⟩, ⟨hmem, habbr, hfull⟩, rfl⟩
    exact ⟨abbreviation, full, rfl, hmem, habbr, hfull⟩
  · rintro ⟨abbreviation, full, rfl, hmem, habbr, hfull⟩
    exact ⟨(abbreviation, full), ⟨hmem, habbr, hfull⟩, rfl⟩

theorem Security.mem_sitesAt_iff {index : Nat} {r : Resource} {site : Site} :
    site ∈ sitesAt index r ↔ ∃ rule v, site = .security index v.code ∧
      Registry.builtin.ruleFor? r.type = some rule ∧ v ∈ rule.violations r := by
  rw [sitesAt]
  split
  · rename_i rule hrule
    rw [List.mem_map]
    constructor
    · rintro ⟨v, hv, rfl⟩
      exact ⟨rule, v, rfl, hrule, hv⟩
    · rintro ⟨rule', v, rfl, hrule', hv⟩
      rw [hrule] at hrule'
      cases hrule'
      exact ⟨v, hv, rfl⟩
  · rename_i hnone
    constructor
    · exact fun h => absurd h List.not_mem_nil
    · rintro ⟨rule, v, -, hrule, -⟩
      rw [hnone] at hrule
      cases hrule

theorem Cost.findingAt?_eq_some_iff {oversized : Dictionary String} {index : Nat}
    {r : Resource} {f : Finding} : findingAt? oversized index r = some f ↔
      ∃ sku recommendation, r.skuName? = some sku ∧
        (sku, recommendation) ∈ oversized.entries ∧ f = finding index r sku recommendation := by
  simp only [findingAt?, Option.bind_eq_bind, Option.bind_eq_some_iff,
    Dictionary.mem_entries_iff]
  constructor
  · rintro ⟨sku, hsku, recommendation, hget, ⟨⟩⟩
    exact ⟨sku, recommendation, hsku, hget, rfl⟩
  · rintro ⟨sku, recommendation, hsku, hget, rfl⟩
    exact ⟨sku, hsku, recommendation, hget, rfl⟩

theorem Cost.mem_sitesAt_iff {oversized : Dictionary String} {index : Nat} {r : Resource}
    {site : Site} : site ∈ sitesAt oversized index r ↔ site = .cost index ∧
      ∃ sku recommendation, r.skuName? = some sku ∧
        (sku, recommendation) ∈ oversized.entries := by
  simp only [sitesAt, List.mem_map, Option.mem_toList, findingAt?_eq_some_iff]
  constructor
  · rintro ⟨f, ⟨sku, recommendation, hsku, hmem, -⟩, rfl⟩
    exact ⟨rfl, sku, recommendation, hsku, hmem⟩
  · rintro ⟨rfl, sku, recommendation, hsku, hmem⟩
    exact ⟨_, ⟨sku, recommendation, hsku, hmem, rfl⟩, rfl⟩

theorem Check.mem_sitesAt_iff {c : Check} {abbreviations oversized : Dictionary String}
    {index : Nat} {r : Resource} {site : Site} :
    site ∈ c.sitesAt abbreviations oversized index r ↔
      site.check = c ∧ site.position = index ∧ site.OccursAt abbreviations oversized r := by
  cases c with
  | naming =>
      refine Naming.mem_sitesAt_iff.trans ⟨?_, ?_⟩
      · rintro ⟨abbreviation, full, rfl, h⟩
        exact ⟨rfl, rfl, full, h⟩
      · rintro ⟨hcheck, rfl, hoccurs⟩
        cases site with
        | naming i abbreviation =>
            obtain ⟨full, h⟩ := hoccurs
            exact ⟨abbreviation, full, rfl, h⟩
        | _ => cases hcheck
  | security =>
      refine Security.mem_sitesAt_iff.trans ⟨?_, ?_⟩
      · rintro ⟨rule, v, rfl, hrule, hv⟩
        obtain ⟨before, after, heq, happlies, hbefore⟩ := Security.ruleFor?_eq_some_iff.mp hrule
        exact ⟨rfl, rfl, before, rule, after, heq, happlies, hbefore, v, hv, rfl⟩
      · rintro ⟨hcheck, rfl, hoccurs⟩
        cases site with
        | security i code =>
            obtain ⟨before, rule, after, heq, happlies, hbefore, v, hv, rfl⟩ := hoccurs
            exact ⟨rule, v, rfl,
              Security.ruleFor?_eq_some_iff.mpr ⟨before, after, heq, happlies, hbefore⟩, hv⟩
        | _ => cases hcheck
  | cost =>
      refine Cost.mem_sitesAt_iff.trans ⟨?_, ?_⟩
      · rintro ⟨rfl, hoccurs⟩
        exact ⟨rfl, rfl, hoccurs⟩
      · rintro ⟨hcheck, rfl, hoccurs⟩
        cases site with
        | cost i => exact ⟨rfl, hoccurs⟩
        | _ => cases hcheck

/-- A finding that a check makes at the resource at a position, with its site and its reason. -/
inductive Check.Makes (abbreviations oversized : Dictionary String) (index : Nat)
    (r : Resource) : Check → Site → Finding → Prop
  | naming {abbreviation full : String} : (abbreviation, full) ∈ abbreviations.entries →
      Naming.abbreviates r.name abbreviation full = true →
        Makes abbreviations oversized index r .naming (.naming index abbreviation)
          (Naming.finding index r abbreviation full)
  | security {rule : Security.Rule} {v : Security.Violation} :
      Security.Registry.builtin.ruleFor? r.type = some rule → v ∈ rule.violations r →
        Makes abbreviations oversized index r .security (.security index v.code)
          (Security.finding rule.kind index r v)
  | cost {sku recommendation : String} : r.skuName? = some sku →
      (sku, recommendation) ∈ oversized.entries →
        Makes abbreviations oversized index r .cost (.cost index)
          (Cost.finding index r sku recommendation)

/-- The findings of a check at a resource are made at its sites there, in the same order. -/
theorem Check.forall₂_makes (c : Check) (abbreviations oversized : Dictionary String)
    (index : Nat) (r : Resource) :
    List.Forall₂ (Makes abbreviations oversized index r c)
      (c.sitesAt abbreviations oversized index r)
      (c.findingsAt abbreviations oversized index r) := by
  cases c with
  | naming =>
      refine List.forall₂_map_left_iff.mpr (List.forall₂_map_right_iff.mpr
        (List.forall₂_same.mpr fun e he => ?_))
      obtain ⟨hmem, habbreviates⟩ := List.mem_filter.mp he
      exact .naming hmem habbreviates
  | security =>
      show List.Forall₂ _ (Security.sitesAt index r) (Security.Registry.findingsAt _ index r)
      rw [Security.sitesAt, Security.Registry.findingsAt]
      cases hrule : Security.Registry.builtin.ruleFor? r.type with
      | none => exact .nil
      | some rule =>
          exact List.forall₂_map_left_iff.mpr (List.forall₂_map_right_iff.mpr
            (List.forall₂_same.mpr fun v hv => .security hrule hv))
  | cost =>
      refine List.forall₂_map_left_iff.mpr (List.forall₂_same.mpr fun f hf => ?_)
      rw [Option.mem_toList, Cost.findingAt?_eq_some_iff] at hf
      obtain ⟨sku, recommendation, hsku, hmem, rfl⟩ := hf
      exact .cost hsku hmem

theorem Check.exists_makes {c : Check} {abbreviations oversized : Dictionary String}
    {index : Nat} {r : Resource} {f : Finding}
    (hf : f ∈ c.findingsAt abbreviations oversized index r) :
    ∃ site, Makes abbreviations oversized index r c site f := by
  obtain ⟨site, -, hmakes⟩ :=
    exists_mem_of_forall₂ (c.forall₂_makes abbreviations oversized index r) f hf
  exact ⟨site, hmakes⟩

theorem Check.forall₂_sitesAt (c : Check) (abbreviations oversized : Dictionary String)
    (index : Nat) (r : Resource) :
    List.Forall₂ (fun site f => site.check = c ∧ site.position = index ∧ site.DescribesAt r f)
      (c.sitesAt abbreviations oversized index r)
      (c.findingsAt abbreviations oversized index r) := by
  refine (c.forall₂_makes abbreviations oversized index r).imp fun site f hmakes => ?_
  cases hmakes with
  | naming =>
      refine ⟨rfl, rfl, rfl, rfl, rfl, ?_⟩
      rintro i abbreviation ⟨⟩
      rfl
  | security =>
      refine ⟨rfl, rfl, rfl, rfl, rfl, ?_⟩
      rintro i abbreviation ⟨⟩
  | cost =>
      refine ⟨rfl, rfl, rfl, rfl, rfl, ?_⟩
      rintro i abbreviation ⟨⟩

namespace Security

theorem StorageAccount.eq_of_mem_violations {r : Resource} {v : Violation}
    (h : v ∈ StorageAccount.violations r) : v = httpsViolation r ∨ v = blobViolation r := by
  rw [StorageAccount.violations] at h
  rcases List.mem_append.mp h with h | h
  · split at h
    · cases h
    · exact .inl (List.mem_singleton.mp h)
  · split at h
    · cases h
    · exact .inr (List.mem_singleton.mp h)

theorem SqlServer.eq_of_mem_violations {r : Resource} {v : Violation}
    (h : v ∈ SqlServer.violations r) : v = publicViolation := by
  rw [SqlServer.violations] at h
  split at h
  · exact List.mem_singleton.mp h
  · cases h

theorem eq_of_mem_violations {rule : Rule} {r : Resource} {v : Violation}
    (hrule : rule ∈ Registry.builtin) (hv : v ∈ rule.violations r) :
    v = StorageAccount.httpsViolation r ∨ v = StorageAccount.blobViolation r ∨
      v = SqlServer.publicViolation := by
  rcases List.mem_cons.mp hrule with rfl | hrule
  · exact (StorageAccount.eq_of_mem_violations hv).imp_right .inl
  · cases List.mem_singleton.mp hrule
    exact .inr (.inr (SqlServer.eq_of_mem_violations hv))

/-- What a registry finds at a resource are the violations of the rule for its type. -/
theorem Registry.mem_findingsAt_iff {rules : Registry} {index : Nat} {r : Resource}
    {f : Finding} : f ∈ rules.findingsAt index r ↔
      ∃ rule v, rules.ruleFor? r.type = some rule ∧ v ∈ rule.violations r ∧
        f = finding rule.kind index r v := by
  rw [findingsAt]
  cases rules.ruleFor? r.type with
  | none =>
      refine ⟨fun h => absurd h List.not_mem_nil, ?_⟩
      rintro ⟨rule, v, ⟨⟩, -⟩
  | some rule =>
      refine List.mem_map.trans ⟨?_, ?_⟩
      · rintro ⟨v, hv, rfl⟩
        exact ⟨rule, v, rfl, hv, rfl⟩
      · rintro ⟨rule', v, ⟨⟩, hv, rfl⟩
        exact ⟨v, hv, rfl⟩

end Security

theorem Security.pairwise_violations {rule : Security.Rule} {r : Resource} {index : Nat}
    (h : rule ∈ Security.Registry.builtin) :
    ((rule.violations r).map fun v => Site.security index v.code).Pairwise Site.Precedes := by
  rcases List.mem_cons.mp h with rfl | h
  · show ((StorageAccount.violations r).map _).Pairwise _
    rw [StorageAccount.violations]
    cases StorageAccount.enforcesHttps r <;> cases StorageAccount.encryptsBlobs r
    · exact List.pairwise_pair.mpr .violation
    · exact List.pairwise_singleton _ _
    · exact List.pairwise_singleton _ _
    · exact .nil
  · rw [List.mem_singleton.mp h]
    show ((SqlServer.violations r).map _).Pairwise _
    rw [SqlServer.violations]
    cases SqlServer.isPublic r
    · exact .nil
    · exact List.pairwise_singleton _ _

theorem Check.pairwise_sitesAt (c : Check) (abbreviations oversized : Dictionary String)
    (index : Nat) (r : Resource) :
    (c.sitesAt abbreviations oversized index r).Pairwise Site.Precedes := by
  cases c with
  | naming =>
      refine List.pairwise_map.mpr ((abbreviations.increasing.filter _).imp fun hlt => ?_)
      exact .abbreviation (encode_lt_encode_iff.mpr hlt)
  | security =>
      show (Security.sitesAt index r).Pairwise _
      rw [Security.sitesAt]
      split
      · rename_i rule hrule
        exact Security.pairwise_violations (List.mem_of_find?_eq_some hrule)
      · exact .nil
  | cost =>
      show (Cost.sitesAt oversized index r).Pairwise _
      rw [Cost.sitesAt]
      cases Cost.findingAt? oversized index r with
      | none => exact .nil
      | some f => exact List.pairwise_singleton _ _

/-! ## The sites of an evaluation -/

/-- The sites of a check along a document. -/
def Check.sites (c : Check) (doc : Document) (abbreviations oversized : Dictionary String) :
    List Site :=
  doc.zipIdx.flatMap fun e => c.sitesAt abbreviations oversized e.2 e.1

/-- The sites of the enabled checks, check by check. -/
def sites (doc : Document) (abbreviations : Dictionary String) (policy : Policy) : List Site :=
  Check.all.flatMap fun c =>
    if policy.enables c then c.sites doc abbreviations policy.oversized else []

variable {doc : Document} {abbreviations : Dictionary String} {policy : Policy}

theorem Check.mem_sites_iff {c : Check} {oversized : Dictionary String} {site : Site} :
    site ∈ c.sites doc abbreviations oversized ↔ site.check = c ∧
      ∃ r, doc[site.position]? = some r ∧ site.OccursAt abbreviations oversized r := by
  simp only [sites, List.mem_flatMap, mem_sitesAt_iff]
  constructor
  · rintro ⟨⟨r, i⟩, hri, hcheck, hposition, hoccurs⟩
    exact ⟨hcheck, r, hposition ▸ List.mk_mem_zipIdx_iff_getElem?.mp hri, hoccurs⟩
  · rintro ⟨hcheck, r, hr, hoccurs⟩
    exact ⟨(r, site.position), List.mk_mem_zipIdx_iff_getElem?.mpr hr, hcheck, rfl, hoccurs⟩

theorem mem_sites_iff {site : Site} :
    site ∈ sites doc abbreviations policy ↔ site.Occurs doc abbreviations policy := by
  simp only [sites, List.mem_flatMap]
  constructor
  · rintro ⟨c, -, hmem⟩
    split at hmem
    · rename_i hon
      obtain ⟨rfl, hoccurs⟩ := Check.mem_sites_iff.mp hmem
      exact ⟨hon, hoccurs⟩
    · cases hmem
  · rintro ⟨hon, hoccurs⟩
    refine ⟨site.check, Check.mem_all _, ?_⟩
    rw [if_pos hon]
    exact Check.mem_sites_iff.mpr ⟨rfl, hoccurs⟩

/-- Positions increase along the document, and at each of them the sites of
a check stand in their order. -/
theorem Check.pairwise_sites (c : Check) (doc : Document)
    (abbreviations oversized : Dictionary String) :
    (c.sites doc abbreviations oversized).Pairwise Site.Precedes := by
  refine List.pairwise_flatMap.mpr ⟨fun e _ => c.pairwise_sitesAt _ _ _ _, ?_⟩
  refine (pairwise_zipIdx doc).imp fun {a b} hlt x hx y hy => ?_
  obtain ⟨hxc, hxi, -⟩ := Check.mem_sitesAt_iff.mp hx
  obtain ⟨hyc, hyi, -⟩ := Check.mem_sitesAt_iff.mp hy
  exact .position (hxc.trans hyc.symm) (by rw [hxi, hyi]; exact hlt)

theorem pairwise_sites (doc : Document) (abbreviations : Dictionary String) (policy : Policy) :
    (sites doc abbreviations policy).Pairwise Site.Precedes := by
  refine List.pairwise_flatMap.mpr ⟨fun c _ => ?_, ?_⟩
  · split
    · exact c.pairwise_sites _ _ _
    · exact .nil
  · have hrank : Check.all.Pairwise fun a b => a.rank < b.rank := by decide
    refine hrank.imp fun {a b} hlt x hx y hy => .check ?_
    have hcheck : ∀ {c : Check} {z : Site}, z ∈ (if policy.enables c = true then
        c.sites doc abbreviations policy.oversized else []) → z.check = c := by
      intro c z hz
      split at hz
      · exact (Check.mem_sites_iff.mp hz).1
      · cases hz
    rw [hcheck hx, hcheck hy]
    exact hlt

/-- In a document whose positions fit a word, the reference to a resource
has its position as it is. -/
theorem Site.DescribesAt.describes {r : Resource} {site : Site} {f : Finding}
    (hdoc : doc.length ≤ 2 ^ 32) (hr : doc[site.position]? = some r)
    (h : site.DescribesAt r f) : site.Describes doc f := by
  have hlt := (List.getElem?_eq_some_iff.mp hr).1
  refine ⟨h.checkId, h.code, ⟨r, _, hr, h.resource, ?_, rfl, rfl⟩, h.detail⟩
  exact toNat_saturate_of_lt (Nat.lt_of_lt_of_le hlt hdoc)

/-- What ties sites to findings at every resource of a document, for every
check, ties those of an evaluation. -/
theorem forall₂_sites_of {R : Site → Finding → Prop} (doc : Document)
    (abbreviations : Dictionary String) (policy : Policy)
    (h : ∀ (c : Check) (r : Resource) (index : Nat), doc[index]? = some r →
      List.Forall₂ R (c.sitesAt abbreviations policy.oversized index r)
        (c.findingsAt abbreviations policy.oversized index r)) :
    List.Forall₂ R (sites doc abbreviations policy) (findings doc abbreviations policy) := by
  rw [sites, findings, inOrder]
  refine forall₂_flatMap fun c _ => ?_
  by_cases hon : policy.enables c = true
  · rw [if_pos hon, if_pos hon, Check.findings_eq_flatMap]
    refine forall₂_flatMap fun e he => ?_
    exact h c e.1 e.2 (List.mk_mem_zipIdx_iff_getElem?.mp he)
  · rw [if_neg hon, if_neg hon]
    exact .nil

/-- The findings of an evaluation are those of its sites, in the same order. -/
theorem forall₂_sites (hdoc : doc.length ≤ 2 ^ 32) (abbreviations : Dictionary String)
    (policy : Policy) : List.Forall₂ (Site.Describes doc) (sites doc abbreviations policy)
      (findings doc abbreviations policy) := by
  refine forall₂_sites_of doc abbreviations policy fun c r index hr => ?_
  refine (c.forall₂_sitesAt abbreviations policy.oversized index r).imp fun site f h => ?_
  obtain ⟨-, hposition, hdescribes⟩ := h
  exact hdescribes.describes hdoc (hposition ▸ hr)

theorem id_mem_checksRun_iff {c : Check} :
    c.id ∈ (evaluate doc abbreviations policy).summary.checksRun ↔ policy.enables c = true := by
  show c.id ∈ policy.enabled.map Check.id ↔ _
  rw [List.mem_map]
  constructor
  · rintro ⟨d, hd, hid⟩
    rw [← Check.id_inj.mp hid]
    exact (List.mem_filter.mp hd).2
  · exact fun hon => ⟨c, List.mem_filter.mpr ⟨c.mem_all, hon⟩, rfl⟩

/-- No rule reports a code twice for one resource, so a site of the
security check is one violation. -/
theorem Security.nodup_codes {rule : Security.Rule} (h : rule ∈ Security.Registry.builtin)
    (r : Resource) : ((rule.violations r).map (·.code)).Nodup := by
  have hpairwise : ((rule.violations r).map fun v => Site.security 0 v.code).Pairwise
      Site.Precedes := pairwise_violations h
  refine List.pairwise_map.mpr ((List.pairwise_map.mp hpairwise).imp ?_)
  intro v w hprecedes heq
  exact hprecedes.ne (by rw [heq])

/-- What an evaluation lists and counts, told by the sites at which there is
something to find. -/
structure Enumerates (doc : Document) (abbreviations : Dictionary String) (policy : Policy)
    (e : Evaluation) : Prop where
  /-- The findings are those of the sites, each once and in their order. -/
  findings : ∃ sites : List Site, sites.Pairwise Site.Precedes ∧ sites.Nodup ∧
    (∀ site, site ∈ sites ↔ site.Occurs doc abbreviations policy) ∧
    List.Forall₂ (Site.Describes doc) sites e.findings
  /-- Every violation has a site of its own. -/
  violations : ∀ rule ∈ Security.Registry.builtin, ∀ r : Resource,
    ((rule.violations r).map (·.code)).Nodup
  checksInOrder : e.summary.checksRun.Sublist
    ["naming.abbreviations", "security.hardening", "cost.oversized_sku"]
  checksEnabled : ∀ c : Check, c.id ∈ e.summary.checksRun ↔ policy.enables c = true
  findingsTotal : e.summary.findingsTotal.toNat = min e.findings.length (2 ^ 32 - 1)
  resourcesScanned : e.summary.resourcesScanned.toNat = min doc.length (2 ^ 32 - 1)

/-- An evaluation lists exactly the sites at which something is found, each
once and in their order; its summary names the checks that ran and counts
what was looked at and what was found. -/
theorem evaluate_enumerates_sites (doc : Document) (abbreviations : Dictionary String)
    (policy : Policy) (hdoc : doc.length ≤ 2 ^ 32) :
    Enumerates doc abbreviations policy (evaluate doc abbreviations policy) := by
  have hpairwise := pairwise_sites doc abbreviations policy
  exact {
    findings := ⟨sites doc abbreviations policy, hpairwise, hpairwise.imp Site.Precedes.ne,
      fun _ => mem_sites_iff, forall₂_sites hdoc abbreviations policy⟩
    violations := fun rule hrule r => Security.nodup_codes hrule r
    checksInOrder := List.Sublist.map Check.id List.filter_sublist
    checksEnabled := fun _ => id_mem_checksRun_iff
    findingsTotal := toNat_saturate _
    resourcesScanned := toNat_saturate _ }

/-- Three resources at which all three checks find something, the first of
them with a type that both security rules accept. -/
theorem enumerates_of_three_resources :
    [(⟨"stg-kv", "Microsoft.Storage/storageAccounts Microsoft.Sql/servers", [], none⟩ : Resource),
      ⟨"stg", "", [], some [("name", .string "P1V2")]⟩, ⟨"storage", "", [], none⟩].length ≤ 2 ^ 32 ∧
    Enumerates [⟨"stg-kv", "Microsoft.Storage/storageAccounts Microsoft.Sql/servers", [], none⟩,
      ⟨"stg", "", [], some [("name", .string "P1V2")]⟩, ⟨"storage", "", [], none⟩]
      (.ofList [("stg", "storage"), ("kv", "keyvault")])
      ⟨"strict", ⟨true, true, true⟩, defaultOversized⟩
      (evaluate [⟨"stg-kv", "Microsoft.Storage/storageAccounts Microsoft.Sql/servers", [], none⟩,
        ⟨"stg", "", [], some [("name", .string "P1V2")]⟩, ⟨"storage", "", [], none⟩]
        (.ofList [("stg", "storage"), ("kv", "keyvault")])
        ⟨"strict", ⟨true, true, true⟩, defaultOversized⟩) :=
  ⟨by decide, evaluate_enumerates_sites _ _ _ (by decide)⟩

end TemplateGate
