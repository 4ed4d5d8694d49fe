/-
# `Proofs.Security.Registry` — what a rule adds to a registry

A resource is judged by the first rule that accepts its type, so a registry
is a function from types to rules (`ruleFor?`), and two registries with the
same function find the same in every document (`findings_congr`).  A rule at
the end of a registry changes that function only at types no rule had
accepted (`ruleFor?_withRule`), and two neighbours that accept no common
type change nothing when they change places (`ruleFor?_exchange`).  The rest
follows document by document.

Rules are functions of a resource, so nothing is assumed of them, and their
predicates may overlap in any way.  Every list of rules is a registry that
can be built: `foldl_withRule`.
-/
import Mathlib.Data.List.Flatten
import TemplateGate.Proofs.Sites

namespace TemplateGate.Security

open Json

/-- What a rule by itself finds at a resource. -/
def Rule.findingsAt (rule : Rule) (index : Nat) (r : Resource) : List Finding :=
  if rule.appliesTo r.type then (rule.violations r).map (finding rule.kind index r) else []

/-- No type is accepted by both of two rules. -/
def Rule.Disjoint (a b : Rule) : Prop :=
  ∀ type, ¬ (a.appliesTo type = true ∧ b.appliesTo type = true)

namespace Registry

variable {rules rules' before after : Registry} {rule a b : Rule} {type : String}
  {doc : Document}

/-- Some rule of a registry accepts a type. -/
def Accepts (rules : Registry) (type : String) : Prop := ∃ rule ∈ rules, rule.appliesTo type = true

instance (rules : Registry) (type : String) : Decidable (rules.Accepts type) :=
  inferInstanceAs (Decidable (∃ rule ∈ rules, rule.appliesTo type = true))

/-- The findings among others that refer to a position. -/
def referringTo (index : Nat) (fs : List Finding) : List Finding :=
  fs.filter fun f => f.resource.any fun ref => ref.index.toNat = index

/-! ## The rule for a type -/

theorem foldl_withRule (rules more : Registry) : more.foldl withRule rules = rules ++ more := by
  induction more generalizing rules with
  | nil => simp
  | cons rule more ih =>
      rw [List.foldl_cons, ih, withRule, List.append_assoc]
      rfl

theorem ruleFor?_append (rules rules' : Registry) (type : String) :
    ruleFor? (rules ++ rules') type = (rules.ruleFor? type).or (rules'.ruleFor? type) :=
  List.find?_append

theorem ruleFor?_cons (rule : Rule) (rules : Registry) (type : String) :
    ruleFor? (rule :: rules) type =
      if rule.appliesTo type then some rule else rules.ruleFor? type := by
  rw [ruleFor?, List.find?_cons, ruleFor?]
  cases rule.appliesTo type <;> rfl

theorem ruleFor?_eq_none_iff : rules.ruleFor? type = none ↔ ¬ rules.Accepts type := by
  rw [ruleFor?, List.find?_eq_none]
  constructor
  · rintro h ⟨rule, hrule, happlies⟩
    exact h rule hrule happlies
  · intro h rule hrule happlies
    exact h ⟨rule, hrule, happlies⟩

/-- A rule at the end is asked about the types that no other rule accepts. -/
theorem ruleFor?_withRule (rules : Registry) (rule : Rule) (type : String) :
    (rules.withRule rule).ruleFor? type =
      if rules.Accepts type then rules.ruleFor? type
      else if rule.appliesTo type then some rule else none := by
  rw [withRule, ruleFor?_append, ruleFor?_cons]
  by_cases haccepts : rules.Accepts type
  · obtain ⟨first, hfirst⟩ := Option.ne_none_iff_exists'.mp
      (mt ruleFor?_eq_none_iff.mp (not_not_intro haccepts))
    rw [if_pos haccepts, hfirst, Option.some_or]
  · rw [if_neg haccepts, ruleFor?_eq_none_iff.mpr haccepts, Option.none_or]
    rfl

/-- Neighbours that accept no common type may change places. -/
theorem ruleFor?_exchange (h : a.Disjoint b) (before after : Registry) (type : String) :
    ruleFor? (before ++ a :: b :: after) type = ruleFor? (before ++ b :: a :: after) type := by
  rw [ruleFor?_append, ruleFor?_append, ruleFor?_cons, ruleFor?_cons, ruleFor?_cons,
    ruleFor?_cons]
  by_cases ha : a.appliesTo type = true
  · have hb : ¬ b.appliesTo type = true := fun hb => h type ⟨ha, hb⟩
    rw [if_pos ha, if_neg hb, if_pos ha]
  · rw [if_neg ha, if_neg ha]

/-! ## Findings -/

theorem findingsAt_congr (h : rules.ruleFor? type = rules'.ruleFor? type) (index : Nat)
    {r : Resource} (hr : r.type = type) : rules.findingsAt index r = rules'.findingsAt index r := by
  subst hr
  rw [findingsAt, findingsAt, h]

theorem findings_congr (h : ∀ type, rules.ruleFor? type = rules'.ruleFor? type)
    (doc : Document) : rules.findings doc = rules'.findings doc :=
  List.flatMap_congr fun e _ => findingsAt_congr (h e.1.type) e.2 rfl

theorem findingsAt_withRule (rules : Registry) (rule : Rule) (index : Nat) (r : Resource) :
    (rules.withRule rule).findingsAt index r =
      if rules.Accepts r.type then rules.findingsAt index r else rule.findingsAt index r := by
  by_cases haccepts : rules.Accepts r.type
  · rw [if_pos haccepts]
    refine findingsAt_congr ?_ index rfl
    rw [ruleFor?_withRule, if_pos haccepts]
  · rw [if_neg haccepts, findingsAt, ruleFor?_withRule, if_neg haccepts, Rule.findingsAt]
    cases rule.appliesTo r.type <;> rfl

theorem findingsAt_of_not_accepts {r : Resource} (h : ¬ rules.Accepts r.type) (index : Nat) :
    rules.findingsAt index r = [] := by
  rw [findingsAt, ruleFor?_eq_none_iff.mpr h]

theorem findings_sublist_withRule (rules : Registry) (rule : Rule) (doc : Document) :
    (rules.findings doc).Sublist ((rules.withRule rule).findings doc) := by
  refine List.Sublist.flatMap_right doc.zipIdx fun e _ => ?_
  show (rules.findingsAt e.2 e.1).Sublist ((rules.withRule rule).findingsAt e.2 e.1)
  rw [findingsAt_withRule]
  by_cases haccepts : rules.Accepts e.1.type
  · rw [if_pos haccepts]
  · rw [findingsAt_of_not_accepts haccepts]
    exact List.nil_sublist _

theorem findings_withRule_of_covered
    (h : ∀ type, rule.appliesTo type = true → rules.Accepts type) (doc : Document) :
    (rules.withRule rule).findings doc = rules.findings doc := by
  refine findings_congr (fun type => ?_) doc
  rw [ruleFor?_withRule]
  by_cases haccepts : rules.Accepts type
  · rw [if_pos haccepts]
  · rw [if_neg haccepts, if_neg (mt (h type) haccepts), ruleFor?_eq_none_iff.mpr haccepts]

theorem resource_of_mem_findingsAt {index : Nat} {r : Resource} {f : Finding}
    (hf : f ∈ rules.findingsAt index r) : f.resource = some (r.ref index) := by
  obtain ⟨rule, v, -, -, rfl⟩ := mem_findingsAt_iff.mp hf
  rfl

/-- In a document whose positions fit a word, the findings that refer to a
position are those at the resource there. -/
theorem referringTo_findings (rules : Registry) (hdoc : doc.length ≤ 2 ^ 32) {index : Nat}
    {r : Resource} (hr : doc[index]? = some r) :
    referringTo index (rules.findings doc) = rules.findingsAt index r :=
  filter_flatMap_ref hdoc (fun _ _ hf => resource_of_mem_findingsAt hf) hr

/-! ## Extension -/

/-- A registry is conservatively extended by a rule. -/
structure ExtendedBy (rules : Registry) (rule : Rule) : Prop where
  /-- The registry is built by adding its rules to the empty one. -/
  built : rules.foldl withRule [] = rules
  /-- Resource by resource, the extended registry finds what the registry
  finds if one of its rules accepts the type, and else what the rule finds. -/
  resourcewise : ∀ doc : Document, (rules.withRule rule).findings doc =
    doc.zipIdx.flatMap fun e =>
      if rules.Accepts e.1.type then rules.findingsAt e.2 e.1 else rule.findingsAt e.2 e.1
  /-- The same read off the findings themselves, by what they refer to. -/
  located : ∀ (doc : Document) (index : Nat) (r : Resource), doc.length ≤ 2 ^ 32 →
    doc[index]? = some r → referringTo index ((rules.withRule rule).findings doc) =
      if rules.Accepts r.type then referringTo index (rules.findings doc)
      else rule.findingsAt index r
  /-- Nothing is lost, and nothing changes its place among the rest. -/
  kept : ∀ doc : Document, (rules.findings doc).Sublist ((rules.withRule rule).findings doc)
  /-- A rule for types that are accepted already changes nothing. -/
  covered : (∀ type, rule.appliesTo type = true → rules.Accepts type) →
    ∀ doc : Document, (rules.withRule rule).findings doc = rules.findings doc

/-- Every registry is conservatively extended by every rule, and neighbours
that accept no common type may change places in any registry. -/
theorem extension_conservative :
    (∀ (rules : Registry) (rule : Rule), rules.ExtendedBy rule) ∧
    (∀ (before after : Registry) (a b : Rule), a.Disjoint b → ∀ doc : Document,
      findings (before ++ a :: b :: after) doc = findings (before ++ b :: a :: after) doc) := by
  constructor
  · intro rules rule
    refine ⟨foldl_withRule [] rules, fun doc => ?_, fun doc index r hdoc hr => ?_,
      findings_sublist_withRule rules rule, findings_withRule_of_covered⟩
    · exact List.flatMap_congr fun e _ => findingsAt_withRule rules rule e.2 e.1
    · rw [referringTo_findings _ hdoc hr, referringTo_findings _ hdoc hr, findingsAt_withRule]
  · intro before after a b hdisjoint doc
    exact findings_congr (ruleFor?_exchange hdisjoint before after) doc

/-- A rule that objects to every resource of the types it accepts. -/
def objecting (kind : String) (appliesTo : String → Bool) : Rule where
  kind
  appliesTo
  violations := fun r => [⟨"unwanted_type", "Type is not wanted: " ++ r.type, "", .null⟩]

/-- Behind the built-in rules, a rule for every type objects to a vault and
not to the account before it; rules for single types may stand in any order. -/
theorem extended_by_objection :
    (¬ builtin.Accepts "Microsoft.KeyVault/vaults" ∧
      (referringTo 0 ((builtin.withRule (objecting "any" fun _ => true)).findings
          [⟨"data", "Microsoft.Storage/storageAccounts", [], none⟩,
            ⟨"keys", "Microsoft.KeyVault/vaults", [], none⟩])).map (·.code) =
        ["storage_https_not_enforced", "storage_blob_encryption_disabled"] ∧
      (referringTo 1 ((builtin.withRule (objecting "any" fun _ => true)).findings
          [⟨"data", "Microsoft.Storage/storageAccounts", [], none⟩,
            ⟨"keys", "Microsoft.KeyVault/vaults", [], none⟩])).map (·.code) =
        ["unwanted_type"]) ∧
    (objecting "vault" (· == "Microsoft.KeyVault/vaults")).Disjoint
        (objecting "site" (· == "Microsoft.Web/sites")) ∧
      ∀ doc : Document,
        findings (builtin ++ objecting "vault" (· == "Microsoft.KeyVault/vaults") ::
          objecting "site" (· == "Microsoft.Web/sites") :: []) doc =
        findings (builtin ++ objecting "site" (· == "Microsoft.Web/sites") ::
          objecting "vault" (· == "Microsoft.KeyVault/vaults") :: []) doc := by
  have hextended := extension_conservative.1 builtin (objecting "any" fun _ => true)
  have hvault : ¬ builtin.Accepts "Microsoft.KeyVault/vaults" := by decide +kernel
  have hdisjoint : (objecting "vault" (· == "Microsoft.KeyVault/vaults")).Disjoint
      (objecting "site" (· == "Microsoft.Web/sites")) := by
    rintro type ⟨hvault, hsite⟩
    have htype : type = "Microsoft.KeyVault/vaults" := beq_iff_eq.mp hvault
    rw [htype] at hsite
    exact absurd hsite (by decide)
  refine ⟨⟨hvault, ?_, ?_⟩, hdisjoint, extension_conservative.2 _ _ _ _ hdisjoint⟩
  · rw [hextended.located _ 0 _ (by decide) rfl, if_pos (by decide +kernel)]
    decide +kernel
  · rw [hextended.located _ 1 _ (by decide) rfl, if_neg hvault]
    decide +kernel

end Registry

end TemplateGate.Security
