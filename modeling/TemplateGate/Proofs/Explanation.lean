/-
# `Proofs.Explanation` — what is reported can be explained and configured

Checks and codes are named in five places: by the findings, in the list of
checks that ran, by the explanations, in the profiles and as keys of a
configuration.  `catalogue` writes down which check has which codes, and all
five agree on it.  Explanations are found for its names and for no other text
(`isSome_find?_iff`), a finding has a check and a code that stand there side by
side (`registered_of_mem_findings`), and a configuration may have a key
exactly if it is the identifier of a check (`acceptsKey_iff`).

A key does something.  To set it switches one check and leaves the rest of the
policy as it is (`resolve_set`), and a check that is switched off takes its
findings with it and no others (`findings_switch_off`).
-/
import TemplateGate.CommandLine.Run
import TemplateGate.Proofs.Config.Resolution
import TemplateGate.Proofs.Isolation

namespace TemplateGate

/-! ## Explanations -/

/-- The checks and codes that a finding can have, side by side. -/
def catalogue : List (String × String) := [
  ("naming.abbreviations", "abbreviation_without_full_term"),
  ("security.hardening", "storage_https_not_enforced"),
  ("security.hardening", "storage_blob_encryption_disabled"),
  ("security.hardening", "sql_public_network_access"),
  ("cost.oversized_sku", "oversized_sku")]

/-- The identifiers of all checks. -/
def Check.ids : List String := all.map id

/-- The texts of all codes. -/
def Code.texts : List String := all.map text

theorem Check.mem_ids_iff {s : String} : s ∈ ids ↔ ∃ c : Check, c.id = s := by
  simp [ids, mem_all]

theorem Code.mem_texts_iff {s : String} : s ∈ texts ↔ ∃ c : Code, c.text = s := by
  simp [texts, mem_all]

theorem catalogue_eq : catalogue = Code.all.map fun code => (code.check.id, code.text) := rfl

theorem Code.mem_catalogue (code : Code) : (code.check.id, code.text) ∈ catalogue := by
  rw [catalogue_eq]
  exact List.mem_map.mpr ⟨code, code.mem_all, rfl⟩

theorem Explanation.isSome_find?_iff {s : String} :
    (find? s).isSome = true ↔ s ∈ Check.ids ∨ s ∈ Code.texts := by
  rw [find?, Option.isSome_or, Option.isSome_map, Option.isSome_map, Bool.or_eq_true,
    Check.mem_ids_iff, Code.mem_texts_iff, Option.isSome_iff_exists, Option.isSome_iff_exists]
  simp only [Check.ofId?_eq_some_iff, Code.ofText?_eq_some_iff, @eq_comm _ s]

/-- `explain` prints an explanation for an identifier, on whatever machine. -/
def CommandLine.Explains (identifier : String) : Prop :=
  ∃ e : Explanation, Explanation.find? identifier = some e ∧
    ∀ (m : Type → Type) [Monad m] (host : Host m), run host ["explain", identifier] = do
      host.print e.toText
      pure 0

namespace CommandLine

theorem ofArguments?_explain {s : String} (h : s ∈ Check.ids ∨ s ∈ Code.texts) :
    Request.ofArguments? ["explain", s] = some (.explain s) := by
  rw [Check.mem_ids_iff, Code.mem_texts_iff] at h
  rcases h with ⟨c, rfl⟩ | ⟨c, rfl⟩
  · cases c <;> decide +kernel
  · cases c <;> decide +kernel

theorem explains_of_mem {s : String} (h : s ∈ Check.ids ∨ s ∈ Code.texts) : Explains s := by
  obtain ⟨e, he⟩ := Option.isSome_iff_exists.mp (Explanation.isSome_find?_iff.mpr h)
  refine ⟨e, he, fun m _ host => ?_⟩
  have hanswer : Explanation.answer s = .ok e.toText := by rw [Explanation.answer, he]
  rw [run, ofArguments?_explain h]
  show explain host s = _
  rw [explain, hanswer]

end CommandLine

/-! ## Findings -/

section

variable {doc : Document} {a oversized : Dictionary String} {p : Policy} {f : Finding}

theorem Check.exists_code_of_mem_findingsAt {c : Check} {index : Nat} {r : Resource}
    (hf : f ∈ c.findingsAt a oversized index r) :
    ∃ code : Code, f.code = code.text ∧ code.check = c := by
  obtain ⟨site, hmakes⟩ := exists_makes hf
  cases hmakes with
  | naming => exact ⟨.abbreviationWithoutFullTerm, rfl, rfl⟩
  | security hrule hv =>
      exact Site.exists_code_of_mem_violations (List.mem_of_find?_eq_some hrule) hv
  | cost => exact ⟨.oversizedSku, rfl, rfl⟩

theorem exists_code_of_mem_findings (hf : f ∈ findings doc a p) : ∃ code : Code,
    f.checkId = code.check.id ∧ f.code = code.text ∧ p.enables code.check = true := by
  obtain ⟨c, index, r, hon, -, hf⟩ := mem_findings_iff.mp hf
  obtain ⟨code, hcode, rfl⟩ := Check.exists_code_of_mem_findingsAt hf
  exact ⟨code, (Check.eq_of_mem_findingsAt hf).1, hcode, hon⟩

/-- What is reported stands in the catalogue, is explained, and comes from a check that ran. -/
structure Finding.Registered (f : Finding) (checksRun : List String) : Prop where
  checkId : f.checkId ∈ Check.ids
  ran : f.checkId ∈ checksRun
  code : f.code ∈ Code.texts
  belongs : (f.checkId, f.code) ∈ catalogue
  checkExplained : CommandLine.Explains f.checkId
  codeExplained : CommandLine.Explains f.code

theorem registered_of_mem_findings (hf : f ∈ (evaluate doc a p).findings) :
    f.Registered (evaluate doc a p).summary.checksRun := by
  obtain ⟨code, hcheck, hcode, hon⟩ := exists_code_of_mem_findings hf
  have hid : f.checkId ∈ Check.ids := Check.mem_ids_iff.mpr ⟨code.check, hcheck.symm⟩
  have htext : f.code ∈ Code.texts := Code.mem_texts_iff.mpr ⟨code, hcode.symm⟩
  exact {
    checkId := hid
    ran := hcheck ▸ id_mem_checksRun_iff.mpr hon
    code := htext
    belongs := by rw [hcheck, hcode]; exact code.mem_catalogue
    checkExplained := CommandLine.explains_of_mem (.inl hid)
    codeExplained := CommandLine.explains_of_mem (.inr htext) }

end

/-! ## Switches -/

/-- A policy with one check switched on or off. -/
def Policy.switch (p : Policy) (check : Check) (on : Bool) : Policy :=
  { p with switches := .ofFn fun d => if d = check then on else p.enables d }

@[simp] theorem Policy.enables_switch (p : Policy) (check : Check) (on : Bool) (d : Check) :
    (p.switch check on).enables d = if d = check then on else p.enables d :=
  Switches.get_ofFn _ d

@[simp] theorem Policy.oversized_switch (p : Policy) (check : Check) (on : Bool) :
    (p.switch check on).oversized = p.oversized := rfl

theorem Policy.enables_switch_off (p : Policy) (check d : Check) :
    (p.switch check false).enables d = (p.enables d && decide (d.id ≠ check.id)) := by
  rw [enables_switch]
  by_cases hd : d = check
  · simp [hd]
  · simp [hd, Check.id_inj]

/-- To switch a check off takes its findings away, and no others. -/
theorem findings_switch_off (check : Check) (doc : Document) (a : Dictionary String)
    (p : Policy) : findings doc a (p.switch check false) =
      (findings doc a p).filter fun f => f.checkId ≠ check.id := by
  rw [filter_findings (fun i => i ≠ check.id), findings]
  refine congrArg inOrder (funext fun d => ?_)
  rw [Policy.enables_switch_off, Policy.oversized_switch]

theorem checksRun_switch_off (check : Check) (doc : Document) (a : Dictionary String)
    (p : Policy) : (evaluate doc a (p.switch check false)).summary.checksRun =
      (evaluate doc a p).summary.checksRun.filter fun i => i ≠ check.id := by
  show (p.switch check false).enabled.map Check.id =
    (p.enabled.map Check.id).filter fun i => i ≠ check.id
  rw [Policy.enabled, Policy.enabled, List.filter_map, List.filter_filter]
  refine congrArg (List.map Check.id) (List.filter_congr fun d _ => ?_)
  rw [Policy.enables_switch_off, Bool.and_comm]
  rfl

/-! ## Keys of a configuration -/

namespace Config

variable {c : Config} {override : Option String} {p : Policy} {id : String}

/-- A configuration with a setting under a key of `checks`. -/
def set (c : Config) (id : String) (setting : CheckSetting) : Config :=
  { c with checks := c.checks.insert id setting }

/-- A configuration may have a key: whatever is set under it, what resolved before still does. -/
def AcceptsKey (id : String) : Prop :=
  ∀ (c : Config) (override : Option String) (setting : CheckSetting),
    (∃ p, c.resolve override = .ok p) → ∃ p, (c.set id setting).resolve override = .ok p

theorem mem_entries_set {setting : CheckSetting} {e : String × CheckSetting} :
    e ∈ (c.set id setting).checks.entries ↔
      if id = e.1 then e.2 = setting else e ∈ c.checks.entries := by
  obtain ⟨key, s⟩ := e
  rw [Dictionary.mem_entries_iff, set, Dictionary.get?_insert]
  split
  · rw [Option.some_inj]
    exact eq_comm
  · exact Dictionary.mem_entries_iff.symm

theorem unknownCheck?_set (h : c.unknownCheck? = none) (check : Check)
    (setting : CheckSetting) : (c.set check.id setting).unknownCheck? = none := by
  rw [unknownCheck?_eq_none_iff] at h ⊢
  rintro key ⟨s, hmem, hunknown⟩
  rw [mem_entries_set] at hmem
  split at hmem
  · exact hunknown ⟨check, ‹_›⟩
  · exact h key ⟨s, hmem, hunknown⟩

/-- The keys that are accepted are the identifiers of checks. -/
theorem acceptsKey_iff : AcceptsKey id ↔ id ∈ Check.ids := by
  rw [Check.mem_ids_iff]
  constructor
  · intro h
    obtain ⟨p, hp⟩ := h .default none ⟨none⟩ ⟨_, rfl⟩
    obtain ⟨-, -, hkeys, -, -⟩ := resolve_eq_ok_iff.mp hp
    by_contra hunknown
    refine unknownCheck?_eq_none_iff.mp hkeys id ⟨⟨none⟩, mem_entries_set.mpr ?_, hunknown⟩
    rw [if_pos rfl]
  · rintro ⟨check, rfl⟩ c override setting ⟨p, hp⟩
    obtain ⟨profile, hprofile, hkeys, hskus, -⟩ := resolve_eq_ok_iff.mp hp
    have hkeys' := unknownCheck?_set hkeys check setting
    exact ⟨_, resolve_eq_ok_iff.mpr ⟨profile, hprofile, hkeys', hskus, rfl⟩⟩

theorem enables_set (c : Config) (profile : Profile) (check d : Check) (on : Bool) :
    (c.set check.id ⟨some on⟩).enables profile d =
      if d = check then on else c.enables profile d := by
  rw [enables, set, Dictionary.get?_insert]
  by_cases hd : d = check
  · simp [hd]
  · have hne : check.id ≠ d.id := fun hid => hd (Check.id_inj.mp hid).symm
    rw [if_neg hne, if_neg hd, enables]

theorem resolve_set (h : c.resolve override = .ok p) (check : Check) (on : Bool) :
    (c.set check.id ⟨some on⟩).resolve override = .ok (p.switch check on) := by
  obtain ⟨profile, hprofile, hkeys, hskus, rfl⟩ := resolve_eq_ok_iff.mp h
  refine resolve_eq_ok_iff.mpr ⟨profile, hprofile, unknownCheck?_set hkeys check _, hskus, ?_⟩
  refine Policy.ext_enables rfl (fun d => ?_) rfl
  rw [Policy.enables_switch, Policy.enables, Policy.enables, Switches.get_ofFn,
    Switches.get_ofFn, enables_set]

end Config

/-- What the switch of a check does, in a policy and as a key of a configuration. -/
structure Check.Switchable (check : Check) : Prop where
  /-- The key sets the switch of the check, and leaves the rest of the policy as it is. -/
  resolves : ∀ {c : Config} {override : Option String} {p : Policy} (on : Bool),
    c.resolve override = .ok p →
      (c.set check.id ⟨some on⟩).resolve override = .ok (p.switch check on)
  /-- The check runs exactly if it is switched on. -/
  runs : ∀ (doc : Document) (a : Dictionary String) (p : Policy) (on : Bool),
    check.id ∈ (evaluate doc a (p.switch check on)).summary.checksRun ↔ on = true
  /-- Of the checks that ran only this one is missing when it is switched off. -/
  others : ∀ (doc : Document) (a : Dictionary String) (p : Policy),
    (evaluate doc a (p.switch check false)).summary.checksRun =
      (evaluate doc a p).summary.checksRun.filter fun i => i ≠ check.id
  /-- Of the findings exactly those of the check are missing then. -/
  findings : ∀ (doc : Document) (a : Dictionary String) (p : Policy),
    (evaluate doc a (p.switch check false)).findings =
      (evaluate doc a p).findings.filter fun f => f.checkId ≠ check.id

theorem Check.switchable (check : Check) : check.Switchable where
  resolves := fun on h => Config.resolve_set h check on
  runs := by
    intro doc a p on
    rw [id_mem_checksRun_iff, Policy.enables_switch, if_pos rfl]
  others := checksRun_switch_off check
  findings := findings_switch_off check

/-- Everything that can be reported can be explained and configured.  The
explanations cover exactly the checks and codes; every finding is registered
with them; and the keys that a configuration may have are the identifiers of
checks, those that ran among them, each of which switches its own check and
no other. -/
theorem reported_is_explained_and_configured :
    (∀ s, (Explanation.find? s).isSome = true ↔ s ∈ Check.ids ∨ s ∈ Code.texts) ∧
    (∀ (doc : Document) (a : Dictionary String) (p : Policy),
      ∀ f ∈ (evaluate doc a p).findings, f.Registered (evaluate doc a p).summary.checksRun) ∧
    (∀ (doc : Document) (a : Dictionary String) (p : Policy),
      ∀ id ∈ (evaluate doc a p).summary.checksRun, Config.AcceptsKey id) ∧
    (∀ id, Config.AcceptsKey id ↔ id ∈ Check.ids) ∧
    (∀ id, Config.AcceptsKey id → ∃ check : Check, check.id = id ∧ check.Switchable) := by
  refine ⟨fun s => Explanation.isSome_find?_iff, ?_, ?_, fun id => Config.acceptsKey_iff, ?_⟩
  · intro doc a p f hf
    exact registered_of_mem_findings hf
  · intro doc a p id hid
    obtain ⟨check, -, rfl⟩ := List.mem_map.mp hid
    exact Config.acceptsKey_iff.mpr (Check.mem_ids_iff.mpr ⟨check, rfl⟩)
  · intro id hid
    obtain ⟨check, rfl⟩ := Check.mem_ids_iff.mp (Config.acceptsKey_iff.mp hid)
    exact ⟨check, rfl, check.switchable⟩

/-- An account and a server that violate everything there is. -/
def allWrong : Document := [
  ⟨"stg", "Microsoft.Storage/storageAccounts", [], some [("name", .string "P1V2")]⟩,
  ⟨"db", "Microsoft.Sql/servers", [("publicNetworkAccess", .string "Enabled")], none⟩]

/-- The policy of the configuration that says nothing. -/
def everything : Policy := ⟨"strict", ⟨true, true, true⟩, defaultOversized⟩

/-- They have findings with every code, and all of them are explained; a
configuration that switches the security check off leaves the other two. -/
theorem allWrong_is_explained_and_configured :
    (evaluate allWrong (.ofList [("stg", "storage")]) everything).findings.map
      (fun f => (f.checkId, f.code)) = catalogue ∧
    (∀ f ∈ (evaluate allWrong (.ofList [("stg", "storage")]) everything).findings,
      CommandLine.Explains f.checkId ∧ CommandLine.Explains f.code) ∧
    Config.AcceptsKey "security.hardening" ∧
    ∃ p, (Config.default.set "security.hardening" ⟨some false⟩).resolve none = .ok p ∧
      (evaluate allWrong (.ofList [("stg", "storage")]) p).findings.map (fun f => f.code) =
        ["abbreviation_without_full_term", "oversized_sku"] := by
  obtain ⟨-, hregistered, hran, -, hswitch⟩ := reported_is_explained_and_configured
  have hcodes : (evaluate allWrong (.ofList [("stg", "storage")]) everything).findings.map
      (fun f => (f.checkId, f.code)) = catalogue := by decide +kernel
  have haccepts : Config.AcceptsKey "security.hardening" :=
    hran allWrong (.ofList [("stg", "storage")]) everything _ (by decide)
  have hresolve : Config.default.resolve none = .ok everything := rfl
  obtain ⟨check, hcheck, hswitchable⟩ := hswitch _ haccepts
  refine ⟨hcodes, ?_, haccepts, everything.switch check false, ?_, ?_⟩
  · intro f hf
    have hf' := hregistered _ _ _ f hf
    exact ⟨hf'.checkExplained, hf'.codeExplained⟩
  · rw [← hcheck]
    exact hswitchable.resolves false hresolve
  · rw [hswitchable.findings, hcheck]
    decide +kernel

end TemplateGate
