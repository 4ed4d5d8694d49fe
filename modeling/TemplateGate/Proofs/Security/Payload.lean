/-
# `Proofs.Security.Payload` — what a registry makes of the violations of its rules

Rules are functions of a resource and may report anything, so the findings of
a registry are described for every registry.  About each resource the first
rule that accepts its type is asked (`Registry.Assigns`), and each violation
it answers with becomes one finding (`Reports`), in the order of the answer.
Of the rules that are not asked, nothing counts but that they were not
first: what they would have answered can be exchanged (`AskedAlike`).

A payload is the one place where a rule and the registry write to the same
object.  Its first three keys belong to the registry and keep their places;
their values belong to the rule if it sets them (`Merges`).  An object that a
rule adds has each key once, as objects do (`Rule.Lawful`).
-/
import TemplateGate.Proofs.Isolation
import TemplateGate.Proofs.Json.Members

namespace TemplateGate.Security

open Json Text

/-- The objects that a rule adds to payloads have each key once. -/
def Rule.Lawful (rule : Rule) : Prop :=
  ∀ r : Resource, ∀ v ∈ rule.violations r, (Members.keys (v.data.members?.getD [])).Nodup

/-- A rule is the first of a registry to accept a type. -/
def Registry.Assigns (rules : Registry) (type : String) (rule : Rule) : Prop :=
  ∃ before after, rules = before ++ rule :: after ∧ rule.appliesTo type = true ∧
    ∀ earlier ∈ before, earlier.appliesTo type = false

/-- The members of a payload: the resource, the rule and the type, and behind
them what else the rule adds, in its order.  Where the rule has a value for a
key, that is the value. -/
structure Merges (kind : String) (r : Resource) (extra : Value) (members : Members) : Prop where
  keys : members.keys = ["resource", "rule", "type"] ++
    (Members.keys (extra.members?.getD [])).filter (· ∉ ["resource", "rule", "type"])
  once : members.keys.Nodup
  added : ∀ key v, extra.get? key = some v → members.get? key = some v
  resource : extra.get? "resource" = none → members.get? "resource" = some (.string r.name)
  rule : extra.get? "rule" = none → members.get? "rule" = some (.string kind)
  type : extra.get? "type" = none → members.get? "type" = some (.string r.type)

/-- A finding reports a violation by the resource at a position. -/
structure Reports (kind : String) (index : Nat) (r : Resource) (v : Violation) (f : Finding) :
    Prop where
  checkId : f.checkId = "security.hardening"
  code : f.code = v.code
  message : f.message = v.message
  help : f.help = some v.help
  resource : ∃ ref, f.resource = some ref ∧ ref.index.toNat = index ∧ ref.name = r.name ∧
    ref.type = r.type
  fingerprint : f.fingerprint = some (hex (Sha256.digest (encode
    ("security.hardening|" ++ v.code ++ "|" ++ numeral index ++ "|" ++ r.name))))
  data : ∃ members, f.data = .object members ∧ Merges kind r v.data members

/-- What is found at the resource at a position: nothing if no rule accepts
its type, and else one finding for each violation that the first of the rules
that do has to report. -/
inductive Registry.Answers (rules : Registry) (index : Nat) (r : Resource) : List Finding → Prop
  | unassigned : (∀ rule ∈ rules, rule.appliesTo r.type = false) → Answers rules index r []
  | assigned {rule : Rule} {fs : List Finding} : rules.Assigns r.type rule →
      List.Forall₂ (Reports rule.kind index r) (rule.violations r) fs → Answers rules index r fs

/-- Two registries have rules of the same kinds for the same types, and those
that are asked about the resources of a document answer alike. -/
structure Registry.AskedAlike (rules rules' : Registry) (doc : Document) : Prop where
  kinds : List.Forall₂ (fun a b => a.kind = b.kind ∧ a.appliesTo = b.appliesTo) rules rules'
  asked : ∀ r ∈ doc, ∀ rule rule', rules.Assigns r.type rule → rules'.Assigns r.type rule' →
    rule.violations r = rule'.violations r

/-- Findings are those of a registry along a document. -/
structure Registry.Finds (rules : Registry) (doc : Document) (fs : List Finding) : Prop where
  /-- Resource by resource the findings are the answer of one rule. -/
  answers : ∃ reports : List (List Finding),
    List.Forall₂ (fun e fs => rules.Answers e.2 e.1 fs) doc.zipIdx reports ∧ fs = reports.flatten
  /-- What rules would answer that are not asked makes no difference. -/
  unasked : ∀ rules' : Registry, rules.AskedAlike rules' doc → rules'.findings doc = fs

/-! ## Payloads -/

variable {rules rules' : Registry} {rule rule' : Rule} {type kind : String} {index : Nat}
  {r : Resource} {v : Violation} {extra : Value} {doc : Document}

theorem get?_payload (hextra : (Members.keys (extra.members?.getD [])).Nodup) (kind key : String)
    (r : Resource) : (payload kind r extra).get? key = (extra.get? key).or
      (Members.get? key [("resource", .string r.name), ("rule", .string kind),
        ("type", .string r.type)]) := by
  have hget : extra.get? key = Members.get? key (extra.members?.getD []) := by cases extra <;> rfl
  rw [payload, Members.get?_setAll hextra, hget]

theorem merges_payload (hextra : (Members.keys (extra.members?.getD [])).Nodup) (kind : String)
    (r : Resource) : Merges kind r extra (payload kind r extra) where
  keys := Members.keys_setAll hextra _
  once := Members.nodup_keys_setAll (by simp [Members.keys])
  added := by
    intro key v hv
    rw [get?_payload hextra, hv, Option.some_or]
  resource := by
    intro hnone
    rw [get?_payload hextra, hnone]
    rfl
  rule := by
    intro hnone
    rw [get?_payload hextra, hnone]
    rfl
  type := by
    intro hnone
    rw [get?_payload hextra, hnone]
    rfl

/-- A built-in rule adds one member, under a key of its own. -/
theorem exists_extra_of_mem_violations (hrule : rule ∈ Registry.builtin)
    (hv : v ∈ rule.violations r) :
    ∃ key value, v.data = .object [(key, value)] ∧ key ∉ ["resource", "rule", "type"] := by
  rcases eq_of_mem_violations hrule hv with rfl | rfl | rfl
  · exact ⟨_, _, rfl, by decide⟩
  · exact ⟨_, _, rfl, by decide⟩
  · exact ⟨_, _, rfl, by decide⟩

theorem lawful_of_mem_builtin (hrule : rule ∈ Registry.builtin) : rule.Lawful := by
  intro r v hv
  obtain ⟨key, value, hdata, -⟩ := exists_extra_of_mem_violations hrule hv
  rw [hdata]
  exact List.nodup_singleton key

/-! ## Findings -/

theorem reports_finding (hindex : index < 2 ^ 32)
    (hextra : (Members.keys (v.data.members?.getD [])).Nodup) (kind : String) (r : Resource) :
    Reports kind index r v (finding kind index r v) where
  checkId := rfl
  code := rfl
  message := rfl
  help := rfl
  resource := ⟨_, rfl, toNat_saturate_of_lt hindex, rfl, rfl⟩
  fingerprint := by
    have htext : (identity index r.name v.code).canonical =
        "security.hardening|" ++ v.code ++ "|" ++ numeral index ++ "|" ++ r.name := by
      rw [Identity.canonical_eq_append]
      simp [identity, Check.id]
    rw [finding, Identity.fingerprint, htext]
  data := ⟨_, rfl, merges_payload hextra kind r⟩

namespace Registry

theorem ruleFor?_eq_some_iff_assigns : rules.ruleFor? type = some rule ↔ rules.Assigns type rule :=
  ruleFor?_eq_some_iff

theorem answers_findingsAt (hindex : index < 2 ^ 32) (hrules : ∀ rule ∈ rules, rule.Lawful) :
    rules.Answers index r (rules.findingsAt index r) := by
  rw [findingsAt]
  cases hrule : rules.ruleFor? r.type with
  | none =>
      refine .unassigned fun rule hmem => ?_
      exact Bool.eq_false_iff.mpr (List.find?_eq_none.mp hrule rule hmem)
  | some rule =>
      refine .assigned (ruleFor?_eq_some_iff_assigns.mp hrule) ?_
      refine List.forall₂_map_right_iff.mpr (List.forall₂_same.mpr fun v hv => ?_)
      exact reports_finding hindex (hrules rule (List.mem_of_find?_eq_some hrule) r v hv) _ _

/-- Where the first rule for a type stands depends on what the rules accept. -/
theorem ruleFor?_of_forall₂ (type : String)
    (h : List.Forall₂ (fun a b : Rule => a.kind = b.kind ∧ a.appliesTo = b.appliesTo)
      rules rules') : (rules.ruleFor? type = none ∧ rules'.ruleFor? type = none) ∨
      ∃ rule rule', rules.ruleFor? type = some rule ∧ rules'.ruleFor? type = some rule' ∧
        rule.kind = rule'.kind := by
  induction h with
  | nil => exact .inl ⟨rfl, rfl⟩
  | @cons a b rules rules' hab _ ih =>
      obtain ⟨hkind, happlies⟩ := hab
      rw [ruleFor?, ruleFor?, List.find?_cons, List.find?_cons, ← happlies]
      cases a.appliesTo type with
      | true => exact .inr ⟨a, b, rfl, rfl, hkind⟩
      | false => exact ih

theorem findings_of_askedAlike (h : rules.AskedAlike rules' doc) :
    rules'.findings doc = rules.findings doc := by
  refine List.flatMap_congr fun e he => ?_
  obtain ⟨r, index⟩ := e
  have hr : r ∈ doc := List.fst_mem_of_mem_zipIdx he
  show rules'.findingsAt index r = rules.findingsAt index r
  rw [findingsAt, findingsAt]
  rcases ruleFor?_of_forall₂ r.type h.kinds with
    ⟨hnone, hnone'⟩ | ⟨rule, rule', hrule, hrule', hkind⟩
  · rw [hnone, hnone']
  · have hanswer := h.asked r hr rule rule' (ruleFor?_eq_some_iff_assigns.mp hrule)
      (ruleFor?_eq_some_iff_assigns.mp hrule')
    rw [hrule, hrule']
    show (rule'.violations r).map (finding rule'.kind index r) =
      (rule.violations r).map (finding rule.kind index r)
    rw [hkind, hanswer]

/-- A registry of any rules reports, about each resource of a document in
turn, the violations that the first rule for its type answers with, each once
and in their order, and merges what the rule adds into the payload. -/
theorem findings_merge_payloads (rules : Registry) (doc : Document) (hdoc : doc.length ≤ 2 ^ 32)
    (hrules : ∀ rule ∈ rules, rule.Lawful) : rules.Finds doc (rules.findings doc) where
  answers := by
    refine ⟨doc.zipIdx.map fun e => rules.findingsAt e.2 e.1, ?_, ?_⟩
    · refine List.forall₂_map_right_iff.mpr (List.forall₂_same.mpr fun e he => ?_)
      have hlt := List.snd_lt_of_mem_zipIdx he
      exact answers_findingsAt (by omega) hrules
    · rw [findings, List.flatMap_def]
  unasked := fun _ h => findings_of_askedAlike h

/-- A rule for every type.  One of its violations adds an object, which has a
key that the registry sets too, and the other adds no object. -/
def marking : Rule where
  kind := "marker"
  appliesTo := fun _ => true
  violations := fun _ => [
    ⟨"marker_object", "object", "", .object [("extra", .null), ("rule", .string "overridden")]⟩,
    ⟨"marker_array", "array", "", .array [.string "dropped"]⟩]

/-- Before the built-in rules it answers for an account, with two payloads. -/
theorem finds_of_marking :
    [bareAccount none].length ≤ 2 ^ 32 ∧ (∀ rule ∈ marking :: builtin, rule.Lawful) ∧
      Finds (marking :: builtin) [bareAccount none]
        (findings (marking :: builtin) [bareAccount none]) ∧
      ((findings (marking :: builtin) [bareAccount none]).map fun f =>
        (f.code, Members.keys (f.data.members?.getD []), (f.data.get? "rule").bind Value.text?)) =
        [("marker_object", ["resource", "rule", "type", "extra"], some "overridden"),
          ("marker_array", ["resource", "rule", "type"], some "marker")] := by
  have hlawful : ∀ rule ∈ marking :: builtin, rule.Lawful := by
    intro rule hrule
    rcases List.mem_cons.mp hrule with rfl | hrule
    · intro r v hv
      simp only [marking, List.mem_cons, List.not_mem_nil, or_false] at hv
      rcases hv with rfl | rfl <;> decide
    · exact lawful_of_mem_builtin hrule
  exact ⟨by decide, hlawful, findings_merge_payloads _ _ (by decide) hlawful, by decide +kernel⟩

end Registry

end TemplateGate.Security
