/-
# `Proofs.SelfConsistency` — a finding is checked against itself

The name and the type of a resource are written down several times for one
finding: in its reference, in its payload, in its message and in the text
that is hashed.  `Finding.Coheres` says that the copies are the same, without
a word about the document: from the reference and the payload alone a reader
can write the message of a naming or cost finding again and compute the
fingerprint of any.

What a built-in rule adds to a payload goes under a key of its own, so it
cannot cover the name and the type that stand there.  The position is
written once as a word and once as a number; the two are the same in a
document of at most 2³² resources.
-/
import TemplateGate.Proofs.Security.Payload

namespace TemplateGate

open Json Text

/-- What a finding repeats in its payload and its message depends on its
check, and so does what the hashed text ends with. -/
inductive Finding.Repeats (f : Finding) (ref : ResourceRef) : Check → String → Prop
  | naming {abbreviation full : String} :
      f.data.get? "abbreviation" = some (.string abbreviation) →
      f.data.get? "full_term" = some (.string full) →
      f.message =
        "Resource '" ++ ref.name ++ "': Use '" ++ full ++ "' instead of '" ++ abbreviation ++ "'" →
      Repeats f ref .naming ("|" ++ abbreviation)
  | security : f.data.get? "type" = some (.string ref.type) → Repeats f ref .security ""
  | cost {sku recommendation : String} :
      f.data.get? "sku" = some (.string sku) →
      f.data.get? "recommendation" = some (.string recommendation) →
      f.data.get? "type" = some (.string ref.type) →
      f.message = "Resource " ++ ref.type ++ ": " ++ recommendation →
      Repeats f ref .cost ("|" ++ sku)

/-- The parts of a finding agree with one another. -/
structure Finding.Coheres (f : Finding) (ref : ResourceRef) (c : Check) (ending : String) :
    Prop where
  resource : f.resource = some ref
  checkId : f.checkId = c.id
  help : ∃ help, f.help = some help
  name : f.data.get? "resource" = some (.string ref.name)
  repeats : f.Repeats ref c ending
  fingerprint : f.fingerprint = some (hex (Sha256.digest (encode
    (f.checkId ++ "|" ++ f.code ++ "|" ++ numeral ref.index.toNat ++ "|" ++ ref.name ++ ending))))

variable {index : Nat}

theorem Identity.fingerprint_eq (i : Identity) (hindex : i.index < 2 ^ 32) : i.fingerprint =
    hex (Sha256.digest (encode (i.checkId ++ "|" ++ i.code ++ "|" ++
      numeral (saturate i.index).toNat ++ "|" ++ i.name ++ i.detail.elim "" ("|" ++ ·)))) := by
  rw [fingerprint, canonical_eq_append, toNat_saturate_of_lt hindex]

theorem Naming.finding_coheres (hindex : index < 2 ^ 32) (r : Resource)
    (abbreviation full : String) : (finding index r abbreviation full).Coheres (r.ref index)
      .naming ("|" ++ abbreviation) where
  resource := rfl
  checkId := rfl
  help := ⟨_, rfl⟩
  name := rfl
  repeats := .naming rfl rfl rfl
  fingerprint := congrArg some ((identity index r.name abbreviation).fingerprint_eq hindex)

theorem Cost.finding_coheres (hindex : index < 2 ^ 32) (r : Resource)
    (sku recommendation : String) : (finding index r sku recommendation).Coheres (r.ref index)
      .cost ("|" ++ sku) where
  resource := rfl
  checkId := rfl
  help := ⟨_, rfl⟩
  name := rfl
  repeats := .cost rfl rfl rfl rfl
  fingerprint := congrArg some ((identity index r.name sku).fingerprint_eq hindex)

namespace Security

/-- A violation of a built-in rule leaves the name and the type in the payload alone. -/
theorem finding_coheres {rule : Rule} {r : Resource} {v : Violation}
    (hrule : rule ∈ Registry.builtin) (hv : v ∈ rule.violations r) (hindex : index < 2 ^ 32) :
    (finding rule.kind index r v).Coheres (r.ref index) .security "" := by
  obtain ⟨key, value, hdata, hkey⟩ := exists_extra_of_mem_violations hrule hv
  have hmerges := merges_payload (lawful_of_mem_builtin hrule r v hv) rule.kind r
  have hother : ∀ base ∈ ["resource", "rule", "type"], v.data.get? base = none := by
    intro base hbase
    rw [hdata]
    refine Members.get?_eq_none_iff.mpr fun hmem => hkey ?_
    have heq : base = key := List.mem_singleton.mp hmem
    exact heq ▸ hbase
  exact {
    resource := rfl
    checkId := rfl
    help := ⟨_, rfl⟩
    name := hmerges.resource (hother _ (by simp))
    repeats := .security (hmerges.type (hother _ (by simp)))
    fingerprint := congrArg some ((identity index r.name v.code).fingerprint_eq hindex) }

end Security

theorem Check.exists_coheres {c : Check} {a oversized : Dictionary String} {r : Resource}
    {f : Finding} (hindex : index < 2 ^ 32) (hf : f ∈ c.findingsAt a oversized index r) :
    ∃ ending, f.Coheres (r.ref index) c ending := by
  obtain ⟨site, hmakes⟩ := Check.exists_makes hf
  cases hmakes with
  | naming => exact ⟨_, Naming.finding_coheres hindex r _ _⟩
  | security hrule hv =>
      exact ⟨_, Security.finding_coheres (List.mem_of_find?_eq_some hrule) hv hindex⟩
  | cost => exact ⟨_, Cost.finding_coheres hindex r _ _⟩

/-- Every finding of an evaluation has a reference, a help text and a
fingerprint, and can be checked against itself. -/
theorem findings_cohere {doc : Document} {abbreviations : Dictionary String} {policy : Policy}
    {f : Finding} (hdoc : doc.length ≤ 2 ^ 32)
    (hf : f ∈ (evaluate doc abbreviations policy).findings) :
    ∃ ref c ending, f.Coheres ref c ending := by
  obtain ⟨c, index, r, -, hr, hf⟩ := mem_findings_iff.mp hf
  have hlt := (List.getElem?_eq_some_iff.mp hr).1
  obtain ⟨ending, hcoheres⟩ := Check.exists_coheres (by omega) hf
  exact ⟨_, c, ending, hcoheres⟩

/-- The finding about an abbreviation coheres, whatever its resource is named. -/
theorem findings_cohere_barred_name :
    [Resource.named "app|stg"].length ≤ 2 ^ 32 ∧
      ∃ f ∈ (evaluate [.named "app|stg"] (.ofList [("stg", "storage")]) .unpriced).findings,
        f.message = "Resource 'app|stg': Use 'storage' instead of 'stg'" ∧
          ∃ ref c ending, f.Coheres ref c ending := by
  have hmem : Naming.finding 0 (.named "app|stg") "stg" "storage" ∈
      (evaluate [.named "app|stg"] (.ofList [("stg", "storage")]) .unpriced).findings := by
    refine mem_findings_iff.mpr ⟨.naming, 0, _, rfl, rfl, ?_⟩
    exact List.mem_map.mpr ⟨("stg", "storage"), by decide +kernel, rfl⟩
  exact ⟨by decide, _, hmem, by decide +kernel, findings_cohere (by decide) hmem⟩

end TemplateGate
