/-
# `Proofs.Gate` — how a run ends

A run reads the clock, loads the template, finds out by what to judge it,
and evaluates.  Each of the three ways it can go has a lemma, by what was
`loaded` and what `loadPolicy` returns.  `Prepared` collects what has to
succeed on the way to an evaluation; once it holds, the run ends in a
report and nothing else can happen (`runCheck_of_prepared`), and what is
left to say about the run is said about the report.

The host is any host whose operations are transitions of a state, and the
compiler any function of the template on it, so nothing is assumed of the
files, the programs or the clock.
-/
import TemplateGate.Gate
import TemplateGate.Machine.Basic
import TemplateGate.Proofs.Compliance
import TemplateGate.Proofs.Json.Tokens

namespace TemplateGate

open Json

theorem bind_apply {σ α β : Type} (x : StateM σ α) (f : α → StateM σ β) (s : σ) :
    (x >>= f) s = f (x s).1 (x s).2 := rfl

variable {σ : Type} {host : Host (StateM σ)} {inputs : Inputs (StateM σ)} {s : σ}
  {text : String} {doc : Document} {config : Config} {policy : Policy}
  {abbreviations : Dictionary String}

/-- The document that a run in state `s` loads, or why it cannot; the clock
has been read once before. -/
def loaded (host : Host (StateM σ)) (inputs : Inputs (StateM σ)) (s : σ) :
    Except TemplateError Document :=
  (loadDocument host inputs.compiler inputs.template (host.now s).2).1

theorem runCheck_of_loaded_error {cause : TemplateError} (h : loaded host inputs s = .error cause) :
    runCheck host inputs s = (.environmentFailure .compile cause.message,
      (loadDocument host inputs.compiler inputs.template (host.now s).2).2) := by
  rw [runCheck, bind_apply, bind_apply]
  rw [loaded] at h
  rw [h]
  rfl

theorem runCheck_of_loadPolicy_error {e : PolicyError} (h : loaded host inputs s = .ok doc)
    (hpolicy : loadPolicy inputs.config inputs.abbreviations inputs.profile = .error e) :
    (runCheck host inputs s).1 = .environmentFailure .config e.message := by
  rw [loaded] at h
  rw [runCheck, bind_apply, bind_apply, h, hpolicy]
  rfl

theorem runCheck_of_loadPolicy_ok (h : loaded host inputs s = .ok doc)
    (hpolicy : loadPolicy inputs.config inputs.abbreviations inputs.profile =
      .ok (policy, abbreviations)) :
    ∃ startedAt finishedAt, (runCheck host inputs s).1 =
      .ofReport ((evaluate doc abbreviations policy).report inputs.template startedAt
        finishedAt) := by
  refine ⟨(host.now s).1,
    (host.now (loadDocument host inputs.compiler inputs.template (host.now s).2).2).1, ?_⟩
  rw [loaded] at h
  rw [runCheck, bind_apply, bind_apply, h, hpolicy]
  rfl

/-- Everything that a run in state `s` needs before it can evaluate: the
text of the compiled template and its document, the configuration and the
policy it resolves to, and the abbreviations. -/
structure Prepared (host : Host (StateM σ)) (inputs : Inputs (StateM σ)) (s : σ)
    (text : String) (doc : Document) (config : Config) (policy : Policy)
    (abbreviations : Dictionary String) : Prop where
  /-- The clock has been read once when the template is compiled. -/
  compiled : (compileTemplate host inputs.compiler inputs.template (host.now s).2).1 = .ok text
  parsed : Document.parse text = .ok doc
  configured : loadConfig inputs.config = .ok config
  resolved : config.resolve inputs.profile = .ok policy
  abbreviated : loadAbbreviations inputs.abbreviations = .ok abbreviations

theorem loadPolicy_of_prepared (h : Prepared host inputs s text doc config policy abbreviations) :
    loadPolicy inputs.config inputs.abbreviations inputs.profile = .ok (policy, abbreviations) := by
  have hresolved : resolvePolicy config inputs.profile = .ok policy := by
    rw [resolvePolicy, h.resolved]
  rw [loadPolicy, h.configured, h.abbreviated]
  show (do let policy ← resolvePolicy config inputs.profile; pure (policy, abbreviations)) = _
  rw [hresolved]
  rfl

theorem loaded_of_prepared (h : Prepared host inputs s text doc config policy abbreviations) :
    loaded host inputs s = .ok doc := by
  rw [loaded, loadDocument, bind_apply, h.compiled, ← h.parsed]
  rfl

/-- A run that is prepared evaluates, and ends with the report of the
evaluation between two readings of the clock. -/
theorem runCheck_of_prepared (h : Prepared host inputs s text doc config policy abbreviations) :
    ∃ startedAt finishedAt, (runCheck host inputs s).1 =
      .ofReport ((evaluate doc abbreviations policy).report inputs.template startedAt
        finishedAt) :=
  runCheck_of_loadPolicy_ok (loaded_of_prepared h) (loadPolicy_of_prepared h)

/-! ## Runs whose compiler answers with a given template -/

/-- A machine on which a template can be compiled. -/
def Machine.withTemplate : Machine := .start ⟨[(["main.bicep"], .file [])]⟩ fun _ => none

/-- What a run is given whose compiler answers with a value, under a profile. -/
def Inputs.ofTemplate (root : Value) (profile : Option String) : Inputs (StateM Machine) where
  template := "main.bicep"
  compiler := fun _ => pure (.ok root.compact)
  config := .ok none
  abbreviations := .ok none
  profile

theorem prepared_ofTemplate {root : Value} {doc : Document} {profile : Option String}
    {policy : Policy} (hroot : root.Writable maxDepth) (hdoc : Document.ofValue root = .ok doc)
    (hpolicy : Config.default.resolve profile = .ok policy) :
    Prepared Machine.host (.ofTemplate root profile) .withTemplate root.compact doc .default policy
      .empty where
  compiled := by
    have hfile : Machine.withTemplate.files.isFile "main.bicep" = true := by decide +kernel
    have hname : Path.extension? "main.bicep" ≠ some "json" := by decide +kernel
    show (compileTemplate Machine.host _ "main.bicep" _).1 = _
    rw [compileTemplate, bind_apply]
    show ((if Machine.withTemplate.files.isFile "main.bicep" = true then _ else _ :
      StateM Machine _) _).1 = _
    rw [if_pos hfile, if_neg hname]
    rfl
  parsed := by
    rw [Document.parse, parse_compact hroot]
    exact hdoc
  configured := rfl
  resolved := hpolicy
  abbreviated := rfl

/-! ## Clean runs -/

theorem Verdict.ofFindings_eq_pass_iff {fs : List Finding} : ofFindings fs = .pass ↔ fs = [] := by
  rw [ofFindings]
  cases fs <;> simp

theorem verdict_evaluate_eq_pass_iff (doc : Document) (abbreviations : Dictionary String)
    (policy : Policy) : (evaluate doc abbreviations policy).verdict = .pass ↔
      findings doc abbreviations policy = [] :=
  Verdict.ofFindings_eq_pass_iff

theorem Outcome.report?_ofReport (report : Report) : (ofReport report).report? = some report := by
  rw [ofReport]
  cases report.verdict <;> rfl

theorem Outcome.ofReport_clean_iff (report : Report) :
    ((∃ r, ofReport report = .clean r) ↔ report.verdict = .pass) ∧
      ((ofReport report).exitCode = 0 ↔ report.verdict = .pass) := by
  rw [ofReport]
  cases report.verdict with
  | pass => exact ⟨⟨fun _ => rfl, fun _ => ⟨report, rfl⟩⟩, ⟨fun _ => rfl, fun _ => rfl⟩⟩
  | fail =>
      refine ⟨⟨?_, fun h => by cases h⟩, ⟨fun h => ?_, fun h => by cases h⟩⟩
      · rintro ⟨r, hr⟩
        cases hr
      · exact absurd h (show ¬ (1 : UInt32) = 0 by decide)

/-- A run is clean, with exit code 0, exactly if every entry of the template
that is an object complies with the configuration and the abbreviations. -/
theorem clean_iff_every_entry_compliant
    (h : Prepared host inputs s text doc config policy abbreviations) :
    ∃ root, Json.parse text = .ok (.object root) ∧
      ((∃ report, (runCheck host inputs s).1 = .clean report) ↔
        ∀ entry, Document.Declares root (.object entry) →
          Compliant config inputs.profile abbreviations entry) ∧
      ((runCheck host inputs s).1.exitCode = 0 ↔
        ∃ report, (runCheck host inputs s).1 = .clean report) := by
  obtain ⟨root, entries, hroot, hentries, rfl⟩ := Document.eq_of_parse h.parsed
  obtain ⟨startedAt, finishedAt, hrun⟩ := runCheck_of_prepared h
  obtain ⟨hclean, hexit⟩ := Outcome.ofReport_clean_iff
    ((evaluate (Document.ofEntries entries) abbreviations policy).report inputs.template
      startedAt finishedAt)
  have hverdict := verdict_evaluate_eq_pass_iff (Document.ofEntries entries) abbreviations policy
  refine ⟨root, hroot, ?_, ?_⟩
  · rw [hrun, hclean]
    exact hverdict.trans (findings_eq_nil_iff_compliant hentries h.resolved)
  · rw [hrun, hclean, hexit]

/-- The entry of a storage account that is hardened but has an oversized SKU. -/
def hardenedAccount : Members := [
  ("name", .string "stgdata"),
  ("type", .string "Microsoft.Storage/storageAccounts"),
  ("sku", .object [("name", .string "P1V2")]),
  ("properties", .object [
    ("supportsHttpsTrafficOnly", .boolean true),
    ("encryption", .object [("services", .object [("blob", .object [
      ("enabled", .string "Enabled")])])])])]

/-- A template with that account, beside an entry that is no object. -/
def hardenedRoot : Members :=
  [("resources", .object [("account", .object hardenedAccount), ("note", .string "")])]

theorem writable_hardenedRoot : (Value.object hardenedRoot).Writable maxDepth := by
  have htext := Value.writable_string
  refine Value.writable_singleton (Value.writable_object (by decide) ?_)
  refine List.forall_mem_cons.mpr ⟨?_, List.forall_mem_singleton.mpr (htext _ _)⟩
  refine Value.writable_object (by decide) ?_
  simp only [hardenedAccount, List.forall_mem_cons]
  refine ⟨htext _ _, htext _ _, Value.writable_singleton (htext _ _), ?_, by simp⟩
  refine Value.writable_object (by decide) (List.forall_mem_cons.mpr
    ⟨⟨Nat.zero_le _, .boolean true, .boolean true⟩, List.forall_mem_singleton.mpr ?_⟩)
  exact Value.writable_singleton (Value.writable_singleton (Value.writable_singleton (htext _ _)))

theorem resolve_securityOnly : Config.default.resolve (some "security-only") =
    .ok ⟨"security-only", ⟨false, true, false⟩, defaultOversized⟩ := rfl

theorem storageHardened_hardenedAccount : StorageHardened hardenedAccount where
  https := .step rfl (.step rfl .here)
  blobs := by
    refine ⟨_, .step rfl (.step rfl (.step rfl (.step rfl (.step rfl .here)))), fun h => ?_⟩
    cases Value.isTruthy_eq_false_iff.mpr h

/-- Of names and SKUs nothing is asked under the profile. -/
theorem compliant_of_declares_hardenedRoot {entry : Members}
    (h : Document.Declares hardenedRoot (.object entry)) :
    Compliant .default (some "security-only") .empty entry := by
  cases h with
  | item hget _ => cases hget
  | member hget hmem =>
      cases hget
      cases hmem with
      | head =>
          refine ⟨fun _ _ _ h => absurd h List.not_mem_nil, fun _ => ⟨fun _ => ?_, ?_⟩,
            fun hon => ?_⟩
          · exact storageHardened_hardenedAccount
          · exact fun h => absurd (List.infix_refl _) h
          · rw [← Config.enables_iff_isOn resolve_securityOnly] at hon
            cases hon
      | tail _ hmem => cases List.mem_singleton.mp hmem

/-- The run is clean. -/
theorem clean_of_hardenedRoot :
    ∃ doc policy, Prepared Machine.host (.ofTemplate (.object hardenedRoot) (some "security-only"))
        .withTemplate (Value.object hardenedRoot).compact doc .default policy .empty ∧
      (∃ report, (runCheck Machine.host (.ofTemplate (.object hardenedRoot) (some "security-only"))
        .withTemplate).1 = .clean report) ∧
      (runCheck Machine.host (.ofTemplate (.object hardenedRoot) (some "security-only"))
        .withTemplate).1.exitCode = 0 := by
  have hprepared := prepared_ofTemplate writable_hardenedRoot rfl resolve_securityOnly
  obtain ⟨root, hroot, hclean, hexit⟩ := clean_iff_every_entry_compliant hprepared
  rw [parse_compact writable_hardenedRoot] at hroot
  cases hroot
  have hrun := hclean.mpr fun _ => compliant_of_declares_hardenedRoot
  exact ⟨_, _, hprepared, hrun, hexit.mpr hrun⟩

end TemplateGate
