/-
# `Proofs.Fingerprint` — what a fingerprint tells of a finding

The text that is hashed joins the parts of an identity by bars.  Check,
code and position hold no bar, so the first three bars are those of the
join and these parts can be read off it.  The name of the resource and the
detail may hold bars, and where one ends and the other begins cannot be
read off: `canonical_eq_iff` says that two texts are equal exactly if the
three parts are, and the name and detail *put together*.  Runs of
different templates can therefore meet in one text.

Findings of one evaluation never do.  There the position fixes the
resource and so the name, what follows the name is the detail, and a site
is not found twice.  What is left to assume is that the digest keeps
different texts apart.
-/
import TemplateGate.Proofs.Sites
import TemplateGate.Proofs.Text.Scan

namespace TemplateGate

open Json Text

/-! ## The canonical text -/

namespace Identity

attribute [ext] Identity

/-- The name, and behind a bar the detail if there is one. -/
def tail (i : Identity) : String := String.intercalate "|" (i.name :: i.detail.toList)

/-- The parts of an identity that are not taken from a template hold no bar. -/
structure Plain (i : Identity) : Prop where
  checkId : '|' ∉ i.checkId.toList
  code : '|' ∉ i.code.toList

theorem toList_tail (i : Identity) : i.tail.toList =
    i.name.toList ++ i.detail.elim [] fun detail => '|' :: detail.toList := by
  cases h : i.detail <;> simp [tail, h]

theorem toList_canonical (i : Identity) : i.canonical.toList =
    i.checkId.toList ++ '|' :: (i.code.toList ++ '|' :: (Nat.toDigits 10 i.index ++
      '|' :: i.tail.toList)) := by
  cases h : i.detail <;> simp [canonical, parts, numeral, tail, h]

theorem canonical_eq_append (i : Identity) : i.canonical =
    i.checkId ++ "|" ++ i.code ++ "|" ++ numeral i.index ++ "|" ++ i.name ++
      i.detail.elim "" ("|" ++ ·) := by
  refine String.toList_inj.mp ?_
  rw [toList_canonical, toList_tail]
  cases i.detail <;> simp [numeral]

/-- Where a mark is for the first time it can be read off a text. -/
theorem append_cons_inj {x : Char} {before before' after after' : List Char}
    (h : x ∉ before) (h' : x ∉ before') (heq : before ++ x :: after = before' ++ x :: after') :
    before = before' ∧ after = after' := by
  have hspan : ∀ before after : List Char, x ∉ before →
      (before ++ x :: after).span (· ≠ x) = (before, x :: after) := by
    intro before after h
    refine span_append (fun c hc => decide_eq_true fun hcx => h (hcx ▸ hc)) ?_
    exact stops_cons.mpr (decide_eq_false fun hne => hne rfl)
  have hpair := hspan before after h
  rw [heq, hspan before' after' h', Prod.mk.injEq, List.cons.injEq] at hpair
  exact ⟨hpair.1.symm, hpair.2.2.symm⟩

theorem bar_not_mem_toDigits (n : Nat) : '|' ∉ Nat.toDigits 10 n := by
  intro h
  exact absurd (isDigit_of_mem_toDigits h) (by decide)

theorem toDigits_inj {m n : Nat} (h : Nat.toDigits 10 m = Nat.toDigits 10 n) : m = n := by
  rw [← readNumeral_toDigits m, h, readNumeral_toDigits]

/-- Two canonical texts are equal exactly if check, code and position are,
and the name and the detail put together. -/
theorem canonical_eq_iff {i j : Identity} (hi : i.Plain) (hj : j.Plain) :
    i.canonical = j.canonical ↔
      i.checkId = j.checkId ∧ i.code = j.code ∧ i.index = j.index ∧ i.tail = j.tail := by
  constructor
  · intro h
    have hlist := congrArg String.toList h
    rw [toList_canonical, toList_canonical] at hlist
    obtain ⟨hcheck, hlist⟩ := append_cons_inj hi.checkId hj.checkId hlist
    obtain ⟨hcode, hlist⟩ := append_cons_inj hi.code hj.code hlist
    obtain ⟨hindex, htail⟩ :=
      append_cons_inj (bar_not_mem_toDigits _) (bar_not_mem_toDigits _) hlist
    exact ⟨String.toList_inj.mp hcheck, String.toList_inj.mp hcode, toDigits_inj hindex,
      String.toList_inj.mp htail⟩
  · rintro ⟨hcheck, hcode, hindex, htail⟩
    refine String.toList_inj.mp ?_
    rw [toList_canonical, toList_canonical, hcheck, hcode, hindex, htail]

theorem detail_eq_of_tail_eq {i j : Identity} (hname : i.name = j.name) (htail : i.tail = j.tail) :
    i.detail = j.detail := by
  have hlist := congrArg String.toList htail
  rw [toList_tail, toList_tail, hname, List.append_cancel_left_eq] at hlist
  cases hi : i.detail with
  | none =>
      cases hj : j.detail with
      | none => rfl
      | some d => simp [hi, hj] at hlist
  | some d =>
      cases hj : j.detail with
      | none => simp [hi, hj] at hlist
      | some d' =>
          simp only [hi, hj, Option.elim_some, List.cons.injEq, true_and] at hlist
          rw [String.toList_inj.mp hlist]

/-- Where both details are there, or neither is, names are equal or stand
with a bar and the detail behind them in one text. -/
theorem name_eq_or_exists_of_tail_eq {i j : Identity}
    (hsome : i.detail.isSome = j.detail.isSome) (htail : i.tail = j.tail) : i.name = j.name ∨
      ∃ d ∈ i.detail, ∃ d' ∈ j.detail,
        i.name.toList ++ '|' :: d.toList = j.name.toList ++ '|' :: d'.toList := by
  have hlist := congrArg String.toList htail
  rw [toList_tail, toList_tail] at hlist
  cases hi : i.detail with
  | none =>
      cases hj : j.detail with
      | none => exact .inl (String.toList_inj.mp (by simpa [hi, hj] using hlist))
      | some d' => simp [hi, hj] at hsome
  | some d =>
      cases hj : j.detail with
      | none => simp [hi, hj] at hsome
      | some d' => exact .inr ⟨d, rfl, d', rfl, by simpa [hi, hj] using hlist⟩

theorem name_eq_of_bar_not_mem_name {i j : Identity} (hsome : i.detail.isSome = j.detail.isSome)
    (hi : '|' ∉ i.name.toList) (hj : '|' ∉ j.name.toList) (htail : i.tail = j.tail) :
    i.name = j.name := by
  rcases name_eq_or_exists_of_tail_eq hsome htail with h | ⟨d, _, d', _, h⟩
  · exact h
  · exact String.toList_inj.mp (append_cons_inj hi hj h).1

/-- Details without bars begin behind the last bar. -/
theorem name_eq_of_bar_not_mem_detail {i j : Identity} (hsome : i.detail.isSome = j.detail.isSome)
    (hi : ∀ d ∈ i.detail, '|' ∉ d.toList) (hj : ∀ d ∈ j.detail, '|' ∉ d.toList)
    (htail : i.tail = j.tail) : i.name = j.name := by
  rcases name_eq_or_exists_of_tail_eq hsome htail with h | ⟨d, hd, d', hd', h⟩
  · exact h
  · -- Read backwards, the detail comes first.
    have hback := congrArg List.reverse h
    simp only [List.reverse_append, List.reverse_cons, List.append_assoc,
      List.singleton_append] at hback
    have hrest := (append_cons_inj (fun hmem => hi d hd (List.mem_reverse.mp hmem))
      (fun hmem => hj d' hd' (List.mem_reverse.mp hmem)) hback).2
    exact String.toList_inj.mp (List.reverse_inj.mp hrest)

end Identity

/-! ## The identities of an evaluation -/

/-- The identity of what is found at a site of a resource. -/
def Site.identity (r : Resource) : Site → Identity
  | naming index abbreviation => Naming.identity index r.name abbreviation
  | security index code => Security.identity index r.name code
  | cost index => Cost.identity index r.name (r.skuName?.getD "")

/-- The identity of what is found at a site of a document. -/
def Site.identity? (doc : Document) (site : Site) : Option Identity :=
  doc[site.position]?.map site.identity

/-- The identities whose texts an evaluation hashes, in the order of its findings. -/
def identities (doc : Document) (abbreviations : Dictionary String) (policy : Policy) :
    List Identity :=
  (sites doc abbreviations policy).filterMap (Site.identity? doc)

/-- What a finding says in its payload of the identity: the abbreviation or the SKU. -/
def Finding.detail? (f : Finding) : Option String :=
  match Check.ofId? f.checkId with
  | some .naming => (f.data.get? "abbreviation").bind Value.text?
  | some .cost => (f.data.get? "sku").bind Value.text?
  | _ => none

/-- A finding carries the fingerprint of an identity, and shows its parts. -/
structure Finding.IdentifiedBy (f : Finding) (i : Identity) : Prop where
  fingerprint : f.fingerprint = some i.fingerprint
  checkId : f.checkId = i.checkId
  code : f.code = i.code
  resource : ∃ ref, f.resource = some ref ∧ ref.index = saturate i.index ∧ ref.name = i.name
  detail : f.detail? = i.detail

theorem Check.forall₂_identifiedBy (c : Check) (abbreviations oversized : Dictionary String)
    (index : Nat) (r : Resource) :
    List.Forall₂ (fun site f => site.position = index ∧ f.IdentifiedBy (site.identity r))
      (c.sitesAt abbreviations oversized index r)
      (c.findingsAt abbreviations oversized index r) := by
  refine (c.forall₂_makes abbreviations oversized index r).imp fun site f hmakes => ?_
  cases hmakes with
  | naming => exact ⟨rfl, rfl, rfl, rfl, ⟨_, rfl, rfl, rfl⟩, rfl⟩
  | security => exact ⟨rfl, rfl, rfl, rfl, ⟨_, rfl, rfl, rfl⟩, rfl⟩
  | @cost sku _ hsku _ =>
      have hidentity : Site.identity r (.cost index) = Cost.identity index r.name sku := by
        rw [Site.identity, hsku]
        rfl
      refine ⟨rfl, ?_⟩
      rw [hidentity]
      exact ⟨rfl, rfl, rfl, ⟨_, rfl, rfl, rfl⟩, rfl⟩

theorem forall₂_identities (doc : Document) (abbreviations : Dictionary String) (policy : Policy) :
    List.Forall₂ (fun i f => f.IdentifiedBy i) (identities doc abbreviations policy)
      (findings doc abbreviations policy) := by
  have hsites : List.Forall₂ (fun site f => ∃ i, site.identity? doc = some i ∧ f.IdentifiedBy i)
      (sites doc abbreviations policy) (findings doc abbreviations policy) := by
    refine forall₂_sites_of doc abbreviations policy fun c r index hr => ?_
    refine (c.forall₂_identifiedBy abbreviations policy.oversized index r).imp ?_
    rintro site f ⟨rfl, hidentified⟩
    exact ⟨_, by rw [Site.identity?, hr, Option.map_some], hidentified⟩
  have hsome : (findings doc abbreviations policy).filterMap some =
      findings doc abbreviations policy := List.filterMap_some
  rw [identities, ← hsome]
  refine List.rel_filterMap ?_ hsites
  rintro site f ⟨i, hi, hidentified⟩
  rw [hi]
  exact .some hidentified

/-! ## What an identity says of its site -/

namespace Site

variable {abbreviations oversized : Dictionary String} {r : Resource} {site : Site}

theorem checkId_identity (site : Site) (r : Resource) :
    (site.identity r).checkId = site.check.id := by
  cases site <;> rfl

theorem code_identity (site : Site) (r : Resource) : (site.identity r).code = site.code := by
  cases site <;> rfl

theorem index_identity (site : Site) (r : Resource) :
    (site.identity r).index = site.position := by
  cases site <;> rfl

theorem name_identity (site : Site) (r : Resource) : (site.identity r).name = r.name := by
  cases site <;> rfl

theorem isSome_detail_identity (site : Site) (r : Resource) :
    (site.identity r).detail.isSome = decide (site.check ≠ .security) := by
  cases site <;> rfl

theorem exists_code_of_mem_violations {rule : Security.Rule} {v : Security.Violation}
    (hrule : rule ∈ Security.Registry.builtin) (hv : v ∈ rule.violations r) :
    ∃ c : Code, v.code = c.text ∧ c.check = .security := by
  rcases Security.eq_of_mem_violations hrule hv with rfl | rfl | rfl
  · exact ⟨.storageHttpsNotEnforced, rfl, rfl⟩
  · exact ⟨.storageBlobEncryptionDisabled, rfl, rfl⟩
  · exact ⟨.sqlPublicNetworkAccess, rfl, rfl⟩

theorem exists_code_of_occursAt (h : site.OccursAt abbreviations oversized r) :
    ∃ c : Code, site.code = c.text ∧ c.check = site.check := by
  cases site with
  | naming => exact ⟨.abbreviationWithoutFullTerm, rfl, rfl⟩
  | security index code =>
      obtain ⟨before, rule, after, heq, -, -, v, hv, rfl⟩ := h
      have hrule : rule ∈ Security.Registry.builtin := heq ▸ List.mem_append_right _
        List.mem_cons_self
      exact exists_code_of_mem_violations hrule hv
  | cost => exact ⟨.oversizedSku, rfl, rfl⟩

theorem plain_identity (h : site.OccursAt abbreviations oversized r) :
    (site.identity r).Plain := by
  have hcheck : ∀ c : Check, '|' ∉ c.id.toList := by
    intro c
    cases c <;> decide
  have hcode : ∀ c : Code, '|' ∉ c.text.toList := by
    intro c
    cases c <;> decide
  obtain ⟨c, hc, -⟩ := exists_code_of_occursAt h
  refine ⟨site.checkId_identity r ▸ hcheck _, ?_⟩
  rw [code_identity, hc]
  exact hcode c

/-- Within a document a site is known by the text that is hashed for it. -/
theorem eq_of_canonical_eq {doc : Document} {s t : Site} {r r' : Resource}
    (hr : doc[s.position]? = some r) (hr' : doc[t.position]? = some r')
    (hs : s.OccursAt abbreviations oversized r) (ht : t.OccursAt abbreviations oversized r')
    (h : (s.identity r).canonical = (t.identity r').canonical) : s = t := by
  obtain ⟨hcheck, hcode, hindex, htail⟩ :=
    (Identity.canonical_eq_iff (plain_identity hs) (plain_identity ht)).mp h
  rw [checkId_identity, checkId_identity, Check.id_inj] at hcheck
  rw [index_identity, index_identity] at hindex
  -- The position is that of one resource, so the name is the same.
  have hresource : r = r' := by
    rw [← hindex, hr] at hr'
    exact Option.some.inj hr'
  subst hresource
  have hname : (s.identity r).name = (t.identity r).name := by
    rw [name_identity, name_identity]
  have hdetail := Identity.detail_eq_of_tail_eq hname htail
  rw [code_identity, code_identity] at hcode
  refine eq_of_parts hcheck hindex hcode ?_
  rintro i a j b rfl rfl
  exact Option.some.inj hdetail

end Site

section Evaluations

variable {doc doc' : Document} {abbreviations abbreviations' : Dictionary String}
  {policy policy' : Policy}

theorem exists_site_of_mem_identities {i : Identity}
    (h : i ∈ identities doc abbreviations policy) : ∃ (site : Site) (r : Resource),
      doc[site.position]? = some r ∧ site.OccursAt abbreviations policy.oversized r ∧
        site.identity r = i := by
  obtain ⟨site, hsite, hi⟩ := List.mem_filterMap.mp h
  obtain ⟨-, r, hr, hoccurs⟩ := mem_sites_iff.mp hsite
  rw [Site.identity?, hr, Option.map_some, Option.some.injEq] at hi
  exact ⟨site, r, hr, hoccurs, hi⟩

/-- The texts of two identities are equal exactly if check, code and position
are, and name and detail put together.  That makes the identities equal if
the names are the same or hold no bar, or the details hold none. -/
theorem canonical_eq_iff_of_mem_identities {i j : Identity}
    (hi : i ∈ identities doc abbreviations policy)
    (hj : j ∈ identities doc' abbreviations' policy') :
    (i.canonical = j.canonical ↔
      i.checkId = j.checkId ∧ i.code = j.code ∧ i.index = j.index ∧ i.tail = j.tail) ∧
    (i.name = j.name ∨ ('|' ∉ i.name.toList ∧ '|' ∉ j.name.toList) ∨
      ((∀ d ∈ i.detail, '|' ∉ d.toList) ∧ ∀ d ∈ j.detail, '|' ∉ d.toList) →
      i.canonical = j.canonical → i = j) := by
  obtain ⟨s, r, -, hs, rfl⟩ := exists_site_of_mem_identities hi
  obtain ⟨t, r', -, ht, rfl⟩ := exists_site_of_mem_identities hj
  have hiff := Identity.canonical_eq_iff (Site.plain_identity hs) (Site.plain_identity ht)
  refine ⟨hiff, fun hbars h => ?_⟩
  obtain ⟨hcheck, hcode, hindex, htail⟩ := hiff.mp h
  have hsome : (s.identity r).detail.isSome = (t.identity r').detail.isSome := by
    rw [Site.checkId_identity, Site.checkId_identity, Check.id_inj] at hcheck
    rw [Site.isSome_detail_identity, Site.isSome_detail_identity, hcheck]
  have hname : (s.identity r).name = (t.identity r').name := by
    rcases hbars with hname | ⟨hs, ht⟩ | ⟨hs, ht⟩
    · exact hname
    · exact Identity.name_eq_of_bar_not_mem_name hsome hs ht htail
    · exact Identity.name_eq_of_bar_not_mem_detail hsome hs ht htail
  exact Identity.ext hcheck hcode hindex hname (Identity.detail_eq_of_tail_eq hname htail)

theorem nodup_canonical (doc : Document) (abbreviations : Dictionary String) (policy : Policy) :
    ((identities doc abbreviations policy).map Identity.canonical).Nodup := by
  refine List.pairwise_map.mpr (List.pairwise_filterMap.mpr ?_)
  refine (pairwise_sites doc abbreviations policy).imp_of_mem fun {s t} hs ht hprecedes => ?_
  intro i hi j hj heq
  obtain ⟨-, r, hr, hsr⟩ := mem_sites_iff.mp hs
  obtain ⟨-, r', hr', htr⟩ := mem_sites_iff.mp ht
  rw [Site.identity?, hr, Option.map_some, Option.some.injEq] at hi
  rw [Site.identity?, hr', Option.map_some, Option.some.injEq] at hj
  subst hi hj
  exact hprecedes.ne (Site.eq_of_canonical_eq hr hr' hsr htr heq)

theorem exists_identifiedBy_of_mem_findings {f : Finding}
    (hf : f ∈ findings doc abbreviations policy) :
    ∃ i ∈ identities doc abbreviations policy, f.IdentifiedBy i :=
  exists_mem_of_forall₂ (forall₂_identities doc abbreviations policy) f hf

theorem exists_finding_of_mem_identities {i : Identity}
    (hi : i ∈ identities doc abbreviations policy) :
    ∃ f ∈ findings doc abbreviations policy, f.IdentifiedBy i :=
  exists_mem_of_forall₂ (forall₂_identities doc abbreviations policy).flip i hi

end Evaluations

/-! ## Findings of different runs -/

/-- All checks, with no SKU that is too large. -/
def Policy.unpriced : Policy := ⟨"strict", ⟨true, true, true⟩, .empty⟩

/-- A resource of which only the name matters. -/
def Resource.named (name : String) : Resource := ⟨name, "", [], none⟩

/-- What two findings have in common, of whatever runs, if one text is hashed
for both: the check, the code and the position, and of the name and the
detail what they make when they are put together.  Nothing is left out if
the names are the same or hold no bar, or the details hold none. -/
theorem hashed_text_tells {doc doc' : Document} {abbreviations abbreviations' : Dictionary String}
    {policy policy' : Policy} {f g : Finding}
    (hf : f ∈ (evaluate doc abbreviations policy).findings)
    (hg : g ∈ (evaluate doc' abbreviations' policy').findings) :
    ∃ i ∈ identities doc abbreviations policy, ∃ j ∈ identities doc' abbreviations' policy',
      f.IdentifiedBy i ∧ g.IdentifiedBy j ∧
      (i.canonical = j.canonical ↔
        i.checkId = j.checkId ∧ i.code = j.code ∧ i.index = j.index ∧ i.tail = j.tail) ∧
      (i.name = j.name ∨ ('|' ∉ i.name.toList ∧ '|' ∉ j.name.toList) ∨
        ((∀ d ∈ i.detail, '|' ∉ d.toList) ∧ ∀ d ∈ j.detail, '|' ∉ d.toList) →
        i.canonical = j.canonical → i = j) := by
  obtain ⟨i, hi, hfi⟩ := exists_identifiedBy_of_mem_findings hf
  obtain ⟨j, hj, hgj⟩ := exists_identifiedBy_of_mem_findings hg
  obtain ⟨hiff, hsame⟩ := canonical_eq_iff_of_mem_identities hi hj
  exact ⟨i, hi, j, hj, hfi, hgj, hiff, hsame⟩

/-- Names with bars, but abbreviations without: nothing is left out. -/
theorem hashed_text_tells_barred_names :
    ∃ f ∈ (evaluate [.named "app|stg"] (.ofList [("stg", "storage")]) .unpriced).findings,
    ∃ g ∈ (evaluate [.named "app|stg|stg"] (.ofList [("stg", "storage")]) .unpriced).findings,
    ∃ i j, f.IdentifiedBy i ∧ g.IdentifiedBy j ∧ ('|' ∈ i.name.toList ∧ '|' ∈ j.name.toList) ∧
      i.canonical ≠ j.canonical := by
  have hi : Naming.identity 0 "app|stg" "stg" ∈
      identities [.named "app|stg"] (.ofList [("stg", "storage")]) .unpriced := by
    decide +kernel
  have hj : Naming.identity 0 "app|stg|stg" "stg" ∈
      identities [.named "app|stg|stg"] (.ofList [("stg", "storage")]) .unpriced := by
    decide +kernel
  obtain ⟨f, hf, -⟩ := exists_finding_of_mem_identities hi
  obtain ⟨g, hg, -⟩ := exists_finding_of_mem_identities hj
  have hf' : f ∈ (evaluate [.named "app|stg"] (.ofList [("stg", "storage")]) .unpriced).findings :=
    hf
  have hg' : g ∈ (evaluate [.named "app|stg|stg"] (.ofList [("stg", "storage")])
    .unpriced).findings := hg
  obtain ⟨i, hi, j, hj, hfi, hgj, -, hsame⟩ := hashed_text_tells hf' hg'
  have hall : ∀ i ∈ identities [.named "app|stg"] (.ofList [("stg", "storage")]) .unpriced,
      i = Naming.identity 0 "app|stg" "stg" := by
    decide +kernel
  have hall' : ∀ j ∈ identities [.named "app|stg|stg"] (.ofList [("stg", "storage")]) .unpriced,
      j = Naming.identity 0 "app|stg|stg" "stg" := by
    decide +kernel
  have hi := hall i hi
  have hj := hall' j hj
  subst hi hj
  refine ⟨f, hf, g, hg, _, _, hfi, hgj, by decide, fun h => ?_⟩
  exact absurd (hsame (.inr (.inr (by decide))) h) (by decide)

/-- One run finds `kv` in `stg|kv|stg`, another finds `stg|kv` in `stg|kv`,
and both hash one text. -/
theorem hashed_text_ambiguous :
    ∃ f ∈ (evaluate [.named "stg|kv|stg"] (.ofList [("kv", "keyvault")]) .unpriced).findings,
    ∃ g ∈ (evaluate [.named "stg|kv"] (.ofList [("stg|kv", "storage")]) .unpriced).findings,
    ∃ i j, f.IdentifiedBy i ∧ g.IdentifiedBy j ∧ i.canonical = j.canonical ∧
      f.fingerprint = g.fingerprint ∧ i.name ≠ j.name ∧ i.detail ≠ j.detail := by
  have hi : Naming.identity 0 "stg|kv|stg" "kv" ∈
      identities [.named "stg|kv|stg"] (.ofList [("kv", "keyvault")]) .unpriced := by
    decide +kernel
  have hj : Naming.identity 0 "stg|kv" "stg|kv" ∈
      identities [.named "stg|kv"] (.ofList [("stg|kv", "storage")]) .unpriced := by
    decide +kernel
  have hcanonical : (Naming.identity 0 "stg|kv|stg" "kv").canonical =
      (Naming.identity 0 "stg|kv" "stg|kv").canonical := by
    decide +kernel
  obtain ⟨f, hf, hfi⟩ := exists_finding_of_mem_identities hi
  obtain ⟨g, hg, hgj⟩ := exists_finding_of_mem_identities hj
  have hfingerprint : f.fingerprint = g.fingerprint := by
    rw [hfi.fingerprint, hgj.fingerprint, Identity.fingerprint, Identity.fingerprint, hcanonical]
  exact ⟨f, hf, g, hg, _, _, hfi, hgj, hcanonical, hfingerprint, by decide, by decide⟩

/-! ## Findings of one run -/

/-- No two of the given texts have one digest. -/
def Sha256.CollisionFree (texts : List String) : Prop :=
  ∀ s ∈ texts, ∀ t ∈ texts, digest (encode s) = digest (encode t) → s = t

instance (texts : List String) : Decidable (Sha256.CollisionFree texts) :=
  inferInstanceAs (Decidable (∀ s ∈ texts, ∀ t ∈ texts, _))

theorem digitChar_inj {m n : Nat} (hm : m < 16) (hn : n < 16)
    (h : m.digitChar = n.digitChar) : m = n := by
  have hall : ∀ m < 16, ∀ n < 16, m.digitChar = n.digitChar → m = n := by decide
  exact hall m hm n hn h

theorem hexPair_inj {b c : UInt8} (h : hexPair b.toNat = hexPair c.toNat) : b = c := by
  have hb := b.toNat_lt
  have hc := c.toNat_lt
  simp only [hexPair, List.cons.injEq, and_true] at h
  have hhigh := digitChar_inj (Nat.mod_lt _ (by decide)) (Nat.mod_lt _ (by decide)) h.1
  have hlow := digitChar_inj (Nat.mod_lt _ (by decide)) (Nat.mod_lt _ (by decide)) h.2
  exact UInt8.toNat_inj.mp (by omega)

theorem hex_inj {bs : List UInt8} : ∀ {cs : List UInt8}, hex bs = hex cs → bs = cs := by
  induction bs with
  | nil =>
      intro cs h
      cases cs with
      | nil => rfl
      | cons c cs => simp [hex, hexPair] at h
  | cons b bs ih =>
      intro cs h
      cases cs with
      | nil => simp [hex, hexPair] at h
      | cons c cs =>
          have hlist := String.ofList_inj.mp h
          rw [List.flatMap_cons, List.flatMap_cons] at hlist
          obtain ⟨hpair, hrest⟩ := List.append_inj hlist rfl
          rw [hexPair_inj hpair, ih (String.ofList_inj.mpr hrest)]

/-- Two resources of one name and one SKU, both with a bar. -/
def barredDocument : Document :=
  [⟨"a|b", "", [], some [("name", .string "P1|V2")]⟩,
    ⟨"a|b", "", [], some [("name", .string "P1|V2")]⟩]

/-- All checks, with that SKU among those that are too large. -/
def Policy.barred : Policy := ⟨"strict", ⟨true, true, true⟩, .ofList [("P1|V2", "P1V1")]⟩

/-- In one report no two findings have one fingerprint.  Their texts are
different whatever the names, abbreviations and SKUs are, and the digest is
assumed to keep those texts apart. -/
theorem fingerprints_distinct (doc : Document) (abbreviations : Dictionary String)
    (policy : Policy) :
    List.Forall₂ (fun i f => f.IdentifiedBy i) (identities doc abbreviations policy)
        (evaluate doc abbreviations policy).findings ∧
      ((identities doc abbreviations policy).map Identity.canonical).Nodup ∧
      (Sha256.CollisionFree ((identities doc abbreviations policy).map Identity.canonical) →
        ((evaluate doc abbreviations policy).findings.map (·.fingerprint)).Nodup) := by
  have hall := forall₂_identities doc abbreviations policy
  have hnodup := nodup_canonical doc abbreviations policy
  refine ⟨hall, hnodup, fun hfree => ?_⟩
  have hfingerprints : (findings doc abbreviations policy).map (·.fingerprint) =
      (identities doc abbreviations policy).map fun i => some i.fingerprint := by
    refine List.forall₂_eq_eq_eq ▸ ?_
    refine List.forall₂_map_left_iff.mpr (List.forall₂_map_right_iff.mpr ?_)
    exact hall.flip.imp fun f i h => h.fingerprint
  show ((findings doc abbreviations policy).map (·.fingerprint)).Nodup
  rw [hfingerprints]
  refine List.pairwise_map.mpr ((List.pairwise_map.mp hnodup).imp_of_mem ?_)
  intro i j hi hj hne heq
  exact hne (hfree _ (List.mem_map_of_mem hi) _ (List.mem_map_of_mem hj)
    (hex_inj (Option.some.inj heq)))

/-- The digest does keep the texts of such a document apart. -/
theorem fingerprints_distinct_of_barredDocument :
    Sha256.CollisionFree ((identities barredDocument .empty .barred).map Identity.canonical) ∧
      (identities barredDocument .empty .barred).length = 2 ∧
      ((evaluate barredDocument .empty .barred).findings.map (·.fingerprint)).Nodup := by
  have hfree : Sha256.CollisionFree
      ((identities barredDocument .empty .barred).map Identity.canonical) := by
    decide +kernel
  exact ⟨hfree, by decide +kernel, (fingerprints_distinct _ _ _).2.2 hfree⟩

end TemplateGate
