/-
# `Proofs.Stages` — at which stage a run fails, and why

A run that cannot evaluate says at which stage it stopped.  The template
comes first: if it cannot be loaded, nothing else is looked at, so the run
is the same whatever the side files hold.  Behind it stand five steps to a
policy, each of which can fail by itself (`PolicyStep.Fails`), and the
reason of the run begins with the label of the first that does.

`Fails` is said of the inputs alone, not of how they are worked through.
A file is a configuration (`Configures`) or lists abbreviations
(`Abbreviates`) as its text has it, and the two differ in what they
forgive: a blank configuration says nothing, a blank list of abbreviations
is no object.  All of it is put together in `Staged`, which holds of every
run on every host (`run_staged`).
-/
import TemplateGate.Proofs.Abbreviations
import TemplateGate.Proofs.Gate

namespace TemplateGate

open Text

/-! ## What the side files say -/

/-- A text is blank: white space from beginning to end. -/
def Blank (text : String) : Prop := ∀ c ∈ text.toList, isBlank c = true

/-- What a configuration file says; missing or blank it says nothing. -/
inductive SideFile.Configures : SideFile → Config → Prop
  | missing : Configures (.ok none) .default
  | blank {text : String} : Blank text → Configures (.ok (some text)) .default
  | text {text : String} {config : Config} : ¬ Blank text → Config.parse? text = some config →
      Configures (.ok (some text)) config

/-- The abbreviations that a file lists; a missing one lists none. -/
inductive SideFile.Abbreviates : SideFile → Dictionary String → Prop
  | missing : Abbreviates (.ok none) .empty
  | text {text : String} {entries : List (String × String)} :
      Abbreviations.Denotes text entries → Abbreviates (.ok (some text)) (.ofList entries)

/-- The steps from the side files to what a template is judged by. -/
inductive PolicyStep where
  | readConfig
  | parseConfig
  | resolveConfig
  | readAbbreviations
  | parseAbbreviations
  deriving DecidableEq, Repr

namespace PolicyStep

/-- What a step is called in the reason of a failure. -/
def label : PolicyStep → String
  | readConfig => "read config"
  | parseConfig => "parse config"
  | resolveConfig => "resolve config"
  | readAbbreviations => "read abbreviations"
  | parseAbbreviations => "parse abbreviations"

/-- The place of a step among the five. -/
def rank : PolicyStep → Nat
  | readConfig => 0
  | parseConfig => 1
  | resolveConfig => 2
  | readAbbreviations => 3
  | parseAbbreviations => 4

variable {m : Type → Type}

/-- A step fails on what a run is given.  Where there is no configuration
there is none to resolve. -/
def Fails (inputs : Inputs m) : PolicyStep → Prop
  | readConfig => ∃ cause, inputs.config = .error cause
  | parseConfig => ∃ text, inputs.config = .ok (some text) ∧ ¬ Blank text ∧
      Config.parse? text = none
  | resolveConfig => ∃ config cause, inputs.config.Configures config ∧
      config.resolve inputs.profile = .error cause
  | readAbbreviations => ∃ cause, inputs.abbreviations = .error cause
  | parseAbbreviations => ∃ text, inputs.abbreviations = .ok (some text) ∧
      ¬ ∃ entries, Abbreviations.Denotes text entries

/-- No step before a step fails. -/
def Reached (inputs : Inputs m) (step : PolicyStep) : Prop :=
  ∀ earlier : PolicyStep, earlier.rank < step.rank → ¬ earlier.Fails inputs

/-- A step fails and none before it does. -/
structure FailsFirst (inputs : Inputs m) (step : PolicyStep) : Prop where
  fails : step.Fails inputs
  reached : step.Reached inputs

theorem rank_inj {step step' : PolicyStep} (h : step.rank = step'.rank) : step = step' := by
  cases step <;> cases step' <;> first | rfl | cases h

theorem FailsFirst.unique {inputs : Inputs m} {step step' : PolicyStep}
    (h : step.FailsFirst inputs) (h' : step'.FailsFirst inputs) : step = step' := by
  refine rank_inj (Nat.le_antisymm ?_ ?_)
  · exact Nat.not_lt.mp fun hlt => h.reached _ hlt h'.fails
  · exact Nat.not_lt.mp fun hlt => h'.reached _ hlt h.fails

theorem Reached.next {inputs : Inputs m} {step next : PolicyStep} (h : step.Reached inputs)
    (hstep : ¬ step.Fails inputs) (hnext : next.rank = step.rank + 1) : next.Reached inputs := by
  intro earlier hlt
  rw [hnext] at hlt
  rcases Nat.lt_or_eq_of_le (Nat.le_of_lt_succ hlt) with hlt | heq
  · exact h earlier hlt
  · rw [rank_inj heq]
    exact hstep

/-- Reasons that begin with two labels have them from one step. -/
theorem eq_of_label_append {step step' : PolicyStep} {rest rest' : String}
    (h : step.label ++ ": " ++ rest = step'.label ++ ": " ++ rest') : step = step' := by
  have htake : ∀ (step : PolicyStep) (rest : String),
      (step.label ++ ": " ++ rest).toList.take 7 = step.label.toList.take 7 := by
    intro step rest
    rw [String.toList_append, String.toList_append, List.append_assoc]
    exact List.take_append_of_le_length (by cases step <;> decide)
  have hlabels : step.label.toList.take 7 = step'.label.toList.take 7 := by
    rw [← htake step rest, h, htake]
  revert hlabels
  cases step <;> cases step' <;> decide

end PolicyStep

/-! ## Reading the side files -/

theorem allBlank_iff {text : String} : allBlank text = true ↔ Blank text := List.all_eq_true

theorem loadConfig_eq_ok_iff {file : SideFile} {config : Config} :
    loadConfig file = .ok config ↔ file.Configures config := by
  constructor
  · intro h
    unfold loadConfig at h
    split at h
    · cases h
    · cases h
      exact .missing
    · rename_i text
      split at h
      · rename_i hblank
        cases h
        exact .blank (allBlank_iff.mp hblank)
      · rename_i hblank
        split at h
        · rename_i config' hparse
          cases h
          exact .text (mt allBlank_iff.mpr hblank) hparse
        · cases h
  · intro h
    cases h with
    | missing => rfl
    | blank hblank => exact if_pos (allBlank_iff.mpr hblank)
    | text hblank hparse =>
        rw [loadConfig, if_neg (mt allBlank_iff.mp hblank), hparse]

theorem loadConfig_blank {text : String} (h : Blank text) :
    loadConfig (.ok (some text)) = loadConfig (.ok none) :=
  (loadConfig_eq_ok_iff.mpr (.blank h)).trans (loadConfig_eq_ok_iff.mpr .missing).symm

theorem loadAbbreviations_eq_ok_iff {file : SideFile} {abbreviations : Dictionary String} :
    loadAbbreviations file = .ok abbreviations ↔ file.Abbreviates abbreviations := by
  constructor
  · intro h
    unfold loadAbbreviations at h
    split at h
    · cases h
    · cases h
      exact .missing
    · split at h
      · rename_i hparse
        cases h
        obtain ⟨entries, hdenotes, rfl⟩ := Abbreviations.parse_eq_ok_iff.mp hparse
        exact .text hdenotes
      · cases h
  · intro h
    cases h with
    | missing => rfl
    | text hdenotes =>
        rw [loadAbbreviations, Abbreviations.parse_eq_ok_iff.mpr ⟨_, hdenotes, rfl⟩]

theorem loadAbbreviations_empty {text : String} (h : Abbreviations.Denotes text []) :
    loadAbbreviations (.ok (some text)) = loadAbbreviations (.ok none) :=
  (loadAbbreviations_eq_ok_iff.mpr (.text h)).trans (loadAbbreviations_eq_ok_iff.mpr .missing).symm

/-! ## The first step that fails -/

namespace PolicyStep

variable {m : Type → Type} {inputs : Inputs m} {config : Config} {policy : Policy}
  {abbreviations : Dictionary String}

theorem reached_readConfig : readConfig.Reached inputs := nofun

theorem not_fails_of_configures (h : inputs.config.Configures config) :
    ¬ readConfig.Fails inputs ∧ ¬ parseConfig.Fails inputs := by
  constructor
  · rintro ⟨cause, hfile⟩
    rw [hfile] at h
    cases h
  · rintro ⟨text, hfile, hblank, hparse⟩
    rw [hfile] at h
    cases h with
    | blank hblank' => exact hblank hblank'
    | text _ hparse' =>
        rw [hparse] at hparse'
        cases hparse'

theorem not_fails_of_resolve (h : inputs.config.Configures config)
    (hpolicy : config.resolve inputs.profile = .ok policy) : ¬ resolveConfig.Fails inputs := by
  rintro ⟨config', cause, h', hcause⟩
  rw [← loadConfig_eq_ok_iff] at h h'
  cases h.symm.trans h'
  rw [hpolicy] at hcause
  cases hcause

theorem reached_resolveConfig (h : inputs.config.Configures config) :
    resolveConfig.Reached inputs := by
  obtain ⟨hread, hparse⟩ := not_fails_of_configures h
  have hreached : parseConfig.Reached inputs := reached_readConfig.next hread rfl
  exact hreached.next hparse rfl

theorem reached_readAbbreviations (h : inputs.config.Configures config)
    (hpolicy : config.resolve inputs.profile = .ok policy) : readAbbreviations.Reached inputs :=
  (reached_resolveConfig h).next (not_fails_of_resolve h hpolicy) rfl

theorem not_fails_of_abbreviates (h : inputs.abbreviations.Abbreviates abbreviations) :
    ¬ readAbbreviations.Fails inputs ∧ ¬ parseAbbreviations.Fails inputs := by
  constructor
  · rintro ⟨cause, hfile⟩
    rw [hfile] at h
    cases h
  · rintro ⟨text, hfile, hdenotes⟩
    rw [hfile] at h
    cases h with
    | text h => exact hdenotes ⟨_, h⟩

end PolicyStep

/-- The step that an error comes from. -/
def PolicyError.step : PolicyError → PolicyStep
  | .readConfig _ => .readConfig
  | .parseConfig => .parseConfig
  | .resolveConfig _ => .resolveConfig
  | .readAbbreviations _ => .readAbbreviations
  | .parseAbbreviations _ => .parseAbbreviations

theorem PolicyError.message_eq (e : PolicyError) :
    ∃ rest, e.message = e.step.label ++ ": " ++ rest := by
  cases e with
  | readConfig cause => exact ⟨cause.message, rfl⟩
  | parseConfig => exact ⟨"the text is not a configuration", rfl⟩
  | resolveConfig cause => exact ⟨cause.message, rfl⟩
  | readAbbreviations cause => exact ⟨cause.message, rfl⟩
  | parseAbbreviations fault => exact ⟨Abbreviations.invalidMessage fault, rfl⟩

variable {m : Type → Type} {inputs : Inputs m} {e : PolicyError}

theorem bind_eq_error_iff {ε α β : Type} {x : Except ε α} {f : α → Except ε β} {e : ε} :
    x >>= f = .error e ↔ x = .error e ∨ ∃ a, x = .ok a ∧ f a = .error e := by
  cases x with
  | error e' =>
      constructor
      · intro h
        cases h
        exact .inl rfl
      · rintro (h | ⟨_, ha, _⟩)
        · cases h
          rfl
        · cases ha
  | ok a =>
      refine ⟨fun h => .inr ⟨a, rfl, h⟩, ?_⟩
      rintro (h | ⟨_, ha, h⟩)
      · cases h
      · cases ha
        exact h

theorem failsFirst_of_loadConfig (h : loadConfig inputs.config = .error e) :
    e.step.FailsFirst inputs := by
  unfold loadConfig at h
  split at h
  · rename_i cause hfile
    cases h
    exact ⟨⟨cause, hfile⟩, PolicyStep.reached_readConfig⟩
  · cases h
  · rename_i text hfile
    have hread : ¬ PolicyStep.readConfig.Fails inputs := by
      rintro ⟨cause, hcause⟩
      rw [hfile] at hcause
      cases hcause
    split at h
    · cases h
    · rename_i hblank
      split at h
      · cases h
      · rename_i hparse
        cases h
        refine ⟨⟨text, hfile, mt allBlank_iff.mpr hblank, hparse⟩, ?_⟩
        exact PolicyStep.reached_readConfig.next hread rfl

theorem failsFirst_of_loadAbbreviations (hreached : PolicyStep.readAbbreviations.Reached inputs)
    (h : loadAbbreviations inputs.abbreviations = .error e) : e.step.FailsFirst inputs := by
  unfold loadAbbreviations at h
  split at h
  · rename_i cause hfile
    cases h
    exact ⟨⟨cause, hfile⟩, hreached⟩
  · cases h
  · rename_i text hfile
    have hread : ¬ PolicyStep.readAbbreviations.Fails inputs := by
      rintro ⟨cause, hcause⟩
      rw [hfile] at hcause
      cases hcause
    split at h
    · cases h
    · rename_i fault hfault
      cases h
      refine ⟨⟨text, hfile, ?_⟩, hreached.next hread rfl⟩
      rintro ⟨entries, hdenotes⟩
      rw [Abbreviations.parse_eq_ok_iff.mpr ⟨entries, hdenotes, rfl⟩] at hfault
      cases hfault

theorem resolvePolicy_eq_ok_iff {config : Config} {profile : Option String} {policy : Policy} :
    resolvePolicy config profile = .ok policy ↔ config.resolve profile = .ok policy := by
  rw [resolvePolicy]
  cases config.resolve profile <;> simp

/-- The policy and the abbreviations of a run are there if every step to them succeeds. -/
theorem loadPolicy_eq_ok_iff {policy : Policy} {abbreviations : Dictionary String} :
    loadPolicy inputs.config inputs.abbreviations inputs.profile = .ok (policy, abbreviations) ↔
      ∃ config, inputs.config.Configures config ∧
        config.resolve inputs.profile = .ok policy ∧
          inputs.abbreviations.Abbreviates abbreviations := by
  rw [loadPolicy]
  constructor
  · intro h
    obtain ⟨config, hconfig, h⟩ := Json.bind_eq_ok_iff.mp h
    obtain ⟨policy', hpolicy, h⟩ := Json.bind_eq_ok_iff.mp h
    obtain ⟨abbreviations', habbreviations, h⟩ := Json.bind_eq_ok_iff.mp h
    cases h
    exact ⟨config, loadConfig_eq_ok_iff.mp hconfig, resolvePolicy_eq_ok_iff.mp hpolicy,
      loadAbbreviations_eq_ok_iff.mp habbreviations⟩
  · rintro ⟨config, hconfig, hpolicy, habbreviations⟩
    refine Json.bind_eq_ok_iff.mpr ⟨config, loadConfig_eq_ok_iff.mpr hconfig, ?_⟩
    refine Json.bind_eq_ok_iff.mpr ⟨policy, resolvePolicy_eq_ok_iff.mpr hpolicy, ?_⟩
    exact Json.bind_eq_ok_iff.mpr
      ⟨abbreviations, loadAbbreviations_eq_ok_iff.mpr habbreviations, rfl⟩

/-- An error on the way to the policy comes from the first step that fails. -/
theorem failsFirst_of_loadPolicy
    (h : loadPolicy inputs.config inputs.abbreviations inputs.profile = .error e) :
    e.step.FailsFirst inputs := by
  rw [loadPolicy] at h
  rcases bind_eq_error_iff.mp h with h | ⟨config, hconfig, h⟩
  · exact failsFirst_of_loadConfig h
  · rw [loadConfig_eq_ok_iff] at hconfig
    rcases bind_eq_error_iff.mp h with h | ⟨policy, hpolicy, h⟩
    · rw [resolvePolicy] at h
      split at h
      · cases h
      · rename_i cause hcause
        cases h
        exact ⟨⟨config, cause, hconfig, hcause⟩, PolicyStep.reached_resolveConfig hconfig⟩
    · rw [resolvePolicy_eq_ok_iff] at hpolicy
      rcases bind_eq_error_iff.mp h with h | ⟨abbreviations, _, h⟩
      · exact failsFirst_of_loadAbbreviations
          (PolicyStep.reached_readAbbreviations hconfig hpolicy) h
      · cases h

theorem not_fails_of_loadPolicy {policy : Policy} {abbreviations : Dictionary String}
    (h : loadPolicy inputs.config inputs.abbreviations inputs.profile =
      .ok (policy, abbreviations)) (step : PolicyStep) : ¬ step.Fails inputs := by
  obtain ⟨config, hconfig, hpolicy, habbreviations⟩ := loadPolicy_eq_ok_iff.mp h
  cases step with
  | readConfig => exact (PolicyStep.not_fails_of_configures hconfig).1
  | parseConfig => exact (PolicyStep.not_fails_of_configures hconfig).2
  | resolveConfig => exact PolicyStep.not_fails_of_resolve hconfig hpolicy
  | readAbbreviations => exact (PolicyStep.not_fails_of_abbreviates habbreviations).1
  | parseAbbreviations => exact (PolicyStep.not_fails_of_abbreviates habbreviations).2

/-! ## How a run ends -/

variable {σ : Type} {host : Host (StateM σ)} {inputs : Inputs (StateM σ)} {s : σ}

theorem Outcome.ofReport_cases (report : Report) :
    (report.verdict = .pass ∧ ofReport report = .clean report) ∨
      (report.verdict = .fail ∧ ofReport report = .violations report) := by
  rw [ofReport]
  cases report.verdict with
  | pass => exact .inl ⟨rfl, rfl⟩
  | fail => exact .inr ⟨rfl, rfl⟩

theorem Outcome.ofReport_ne_environmentFailure (report : Report) (stage : Stage)
    (reason : String) : ofReport report ≠ .environmentFailure stage reason := by
  rcases ofReport_cases report with ⟨_, h⟩ | ⟨_, h⟩
  · rw [h]
    exact nofun
  · rw [h]
    exact nofun

/-- The ways in which a run ends: at the template, on the way to the policy,
or with the report of an evaluation. -/
inductive Ends (host : Host (StateM σ)) (inputs : Inputs (StateM σ)) (s : σ) : Outcome → Prop
  | atTemplate {cause : TemplateError} : loaded host inputs s = .error cause →
      Ends host inputs s (.environmentFailure .compile cause.message)
  | atPolicy {doc : Document} {e : PolicyError} : loaded host inputs s = .ok doc →
      e.step.FailsFirst inputs → Ends host inputs s (.environmentFailure .config e.message)
  | evaluated {doc : Document} {config : Config} {policy : Policy}
      {abbreviations : Dictionary String} (startedAt finishedAt : Timestamp) :
      loaded host inputs s = .ok doc → (∀ step : PolicyStep, ¬ step.Fails inputs) →
      inputs.config.Configures config → config.resolve inputs.profile = .ok policy →
      inputs.abbreviations.Abbreviates abbreviations →
      Ends host inputs s (.ofReport ((evaluate doc abbreviations policy).report inputs.template
        startedAt finishedAt))

theorem runCheck_ends (host : Host (StateM σ)) (inputs : Inputs (StateM σ)) (s : σ) :
    Ends host inputs s (runCheck host inputs s).1 := by
  cases hload : loaded host inputs s with
  | error cause =>
      rw [runCheck_of_loaded_error hload]
      exact .atTemplate hload
  | ok doc =>
      cases hpolicy : loadPolicy inputs.config inputs.abbreviations inputs.profile with
      | error e =>
          rw [runCheck_of_loadPolicy_error hload hpolicy]
          exact .atPolicy hload (failsFirst_of_loadPolicy hpolicy)
      | ok judge =>
          obtain ⟨config, hconfig, hresolve, habbreviations⟩ := loadPolicy_eq_ok_iff.mp hpolicy
          obtain ⟨startedAt, finishedAt, hrun⟩ := runCheck_of_loadPolicy_ok hload hpolicy
          rw [hrun]
          exact .evaluated startedAt finishedAt hload (not_fails_of_loadPolicy hpolicy) hconfig
            hresolve habbreviations

namespace Ends

variable {outcome : Outcome}

theorem compile_iff {reason : String} (h : Ends host inputs s outcome) :
    outcome = .environmentFailure .compile reason ↔
      ∃ cause, loaded host inputs s = .error cause ∧ reason = cause.message := by
  cases h with
  | atTemplate hload =>
      rw [hload]
      constructor
      · intro h
        cases h
        exact ⟨_, rfl, rfl⟩
      · rintro ⟨_, hcause, rfl⟩
        cases hcause
        rfl
  | atPolicy hload _ =>
      rw [hload]
      exact ⟨nofun, fun ⟨_, hcause, _⟩ => nomatch hcause⟩
  | evaluated _ _ hload =>
      rw [hload]
      exact ⟨fun h => absurd h (Outcome.ofReport_ne_environmentFailure _ _ _),
        fun ⟨_, hcause, _⟩ => nomatch hcause⟩

theorem config_iff (h : Ends host inputs s outcome) :
    (∃ reason, outcome = .environmentFailure .config reason) ↔
      (∃ doc, loaded host inputs s = .ok doc) ∧ ∃ step : PolicyStep, step.Fails inputs := by
  cases h with
  | atTemplate hload =>
      rw [hload]
      exact ⟨fun ⟨_, h⟩ => (nomatch h), fun ⟨⟨_, h⟩, _⟩ => nomatch h⟩
  | atPolicy hload hfirst =>
      rw [hload]
      exact ⟨fun _ => ⟨⟨_, rfl⟩, _, hfirst.fails⟩, fun _ => ⟨_, rfl⟩⟩
  | evaluated _ _ hload hnone =>
      rw [hload]
      exact ⟨fun ⟨_, h⟩ => absurd h (Outcome.ofReport_ne_environmentFailure _ _ _),
        fun ⟨_, step, hfails⟩ => absurd hfails (hnone step)⟩

theorem label_iff {step : PolicyStep} (h : Ends host inputs s outcome) :
    (∃ rest, outcome = .environmentFailure .config (step.label ++ ": " ++ rest)) ↔
      (∃ doc, loaded host inputs s = .ok doc) ∧ step.FailsFirst inputs := by
  cases h with
  | atTemplate hload =>
      rw [hload]
      exact ⟨fun ⟨_, h⟩ => (nomatch h), fun ⟨⟨_, h⟩, _⟩ => nomatch h⟩
  | @atPolicy doc e hload hfirst =>
      obtain ⟨reason, hmessage⟩ := e.message_eq
      rw [hload, hmessage]
      constructor
      · rintro ⟨rest, h⟩
        cases PolicyStep.eq_of_label_append (Outcome.environmentFailure.inj h).2
        exact ⟨⟨doc, rfl⟩, hfirst⟩
      · rintro ⟨_, hstep⟩
        cases hfirst.unique hstep
        exact ⟨reason, rfl⟩
  | evaluated _ _ hload hnone =>
      rw [hload]
      exact ⟨fun ⟨_, h⟩ => absurd h (Outcome.ofReport_ne_environmentFailure _ _ _),
        fun ⟨_, hstep⟩ => absurd hstep.fails (hnone step)⟩

theorem eq_ofReport {doc : Document} (h : Ends host inputs s outcome)
    (hload : loaded host inputs s = .ok doc) (hnone : ∀ step : PolicyStep, ¬ step.Fails inputs) :
    ∃ config policy abbreviations startedAt finishedAt,
      inputs.config.Configures config ∧ config.resolve inputs.profile = .ok policy ∧
      inputs.abbreviations.Abbreviates abbreviations ∧
      outcome = .ofReport ((evaluate doc abbreviations policy).report inputs.template startedAt
        finishedAt) := by
  cases h with
  | atTemplate hload' =>
      rw [hload] at hload'
      cases hload'
  | atPolicy _ hfirst => exact absurd hfirst.fails (hnone _)
  | evaluated startedAt finishedAt hload' _ hconfig hresolve habbreviations =>
      rw [hload] at hload'
      cases hload'
      exact ⟨_, _, _, startedAt, finishedAt, hconfig, hresolve, habbreviations, rfl⟩

end Ends

/-- How a run ends, stage by stage. -/
structure Staged (host : Host (StateM σ)) (inputs : Inputs (StateM σ)) (s : σ) : Prop where
  /-- The first stage fails exactly if the template cannot be loaded, for the same reason. -/
  compile : ∀ reason, (runCheck host inputs s).1 = .environmentFailure .compile reason ↔
    ∃ cause, loaded host inputs s = .error cause ∧ reason = cause.message
  /-- Such a run is the same whatever else it is given. -/
  unread : ∀ cause, loaded host inputs s = .error cause → ∀ config abbreviations profile,
    runCheck host { inputs with config, abbreviations, profile } s = runCheck host inputs s
  /-- The second stage fails exactly if one of its steps does. -/
  config : (∃ reason, (runCheck host inputs s).1 = .environmentFailure .config reason) ↔
    (∃ doc, loaded host inputs s = .ok doc) ∧ ∃ step : PolicyStep, step.Fails inputs
  /-- The reason begins with the label of the first step that fails. -/
  first : ∀ step : PolicyStep,
    (∃ rest, (runCheck host inputs s).1 =
        .environmentFailure .config (step.label ++ ": " ++ rest)) ↔
      (∃ doc, loaded host inputs s = .ok doc) ∧ step.FailsFirst inputs
  /-- Every other run evaluates, and ends with the report. -/
  evaluated : ∀ doc, loaded host inputs s = .ok doc →
    (∀ step : PolicyStep, ¬ step.Fails inputs) →
      ∃ config policy abbreviations startedAt finishedAt report,
        inputs.config.Configures config ∧ config.resolve inputs.profile = .ok policy ∧
        inputs.abbreviations.Abbreviates abbreviations ∧
        report = (evaluate doc abbreviations policy).report inputs.template startedAt
          finishedAt ∧
        ((report.verdict = .pass ∧ (runCheck host inputs s).1 = .clean report) ∨
          (report.verdict = .fail ∧ (runCheck host inputs s).1 = .violations report))
  /-- A blank configuration is as good as none. -/
  blankConfig : ∀ text, Blank text →
    runCheck host { inputs with config := .ok (some text) } s =
      runCheck host { inputs with config := .ok none } s
  /-- An object without members is as good as no list of abbreviations. -/
  noAbbreviations : ∀ text, Abbreviations.Denotes text [] →
    runCheck host { inputs with abbreviations := .ok (some text) } s =
      runCheck host { inputs with abbreviations := .ok none } s
  /-- A blank text is no such object. -/
  blankAbbreviations : ∀ text, Blank text →
    PolicyStep.parseAbbreviations.Fails { inputs with abbreviations := .ok (some text) }

/-- Every run fails at the stage and for the reason that its inputs say, or evaluates. -/
theorem run_staged (host : Host (StateM σ)) (inputs : Inputs (StateM σ)) (s : σ) :
    Staged host inputs s where
  compile _ := (runCheck_ends host inputs s).compile_iff
  unread := by
    intro cause hload config abbreviations profile
    have hload' : loaded host { inputs with config, abbreviations, profile } s = .error cause :=
      hload
    rw [runCheck_of_loaded_error hload, runCheck_of_loaded_error hload']
  config := (runCheck_ends host inputs s).config_iff
  first _ := (runCheck_ends host inputs s).label_iff
  evaluated := by
    intro doc hload hnone
    obtain ⟨config, policy, abbreviations, startedAt, finishedAt, hconfig, hresolve,
      habbreviations, hrun⟩ := (runCheck_ends host inputs s).eq_ofReport hload hnone
    refine ⟨config, policy, abbreviations, startedAt, finishedAt, _, hconfig, hresolve,
      habbreviations, rfl, ?_⟩
    rw [hrun]
    exact Outcome.ofReport_cases _
  blankConfig := by
    intro text hblank
    rw [runCheck, runCheck, loadPolicy, loadPolicy, loadConfig_blank hblank]
  noAbbreviations := by
    intro text hdenotes
    rw [runCheck, runCheck, loadPolicy, loadPolicy, loadAbbreviations_empty hdenotes]
  blankAbbreviations := by
    intro text hblank
    refine ⟨text, rfl, ?_⟩
    rintro ⟨_, hdenotes⟩
    exact Abbreviations.not_denotes_of_blank hblank hdenotes

/-- Inputs of which nothing can be used but the template. -/
def Inputs.withBrokenFiles : Inputs (StateM Machine) :=
  { Inputs.ofTemplate (.object hardenedRoot) (some "lenient") with
    config := .error (.read "armguard.toml" .permissionDenied)
    abbreviations := .ok (some "") }

/-- An empty file lists no abbreviations, but the run fails for its configuration. -/
theorem fails_at_unreadable_config :
    PolicyStep.parseAbbreviations.Fails Inputs.withBrokenFiles ∧
      ∃ rest, (runCheck Machine.host Inputs.withBrokenFiles .withTemplate).1 =
        .environmentFailure .config (PolicyStep.readConfig.label ++ ": " ++ rest) := by
  constructor
  · exact (run_staged Machine.host (.ofTemplate (.object hardenedRoot) (some "lenient"))
      .withTemplate).blankAbbreviations "" nofun
  · have hload := loaded_of_prepared
      (prepared_ofTemplate writable_hardenedRoot rfl resolve_securityOnly)
    refine ((run_staged Machine.host Inputs.withBrokenFiles .withTemplate).first
      .readConfig).mpr ⟨⟨_, hload⟩, ?_⟩
    exact ⟨⟨_, rfl⟩, PolicyStep.reached_readConfig⟩

end TemplateGate
