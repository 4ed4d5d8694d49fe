/-
# `Proofs.Report.Surfaces` — the ways in which a run tells its result

A run tells its result by its exit code, by the JSON report, by the report
for the terminal, by the document and by annotations.  Each looks at
something else.  The exit code comes from the outcome and the document's
verdict from the report; the terminal and the list of the document look at
whether there are findings; the number in the document is a counter of its
own, of 32 bits.  That they agree is no matter of the renderers.  It is what
an evaluation makes sure of, `Report.Coherent`, and the surfaces are
compared for every coherent report.

What the surfaces say is written out letter by letter, in `Outcome.Agrees`,
`Outcome.Complains` and the items of lists, and not in terms of the
renderers.  An annotation is told by a reader of commands.
-/
import Mathlib.Data.List.TFAE
import TemplateGate.Proofs.Origin
import TemplateGate.Proofs.Report.CommandReader
import TemplateGate.Proofs.Stages
import TemplateGate.Report.Codec
import TemplateGate.Report.Text

namespace TemplateGate

open Json Text

/-! ## What an evaluation makes sure of -/

/-- The verdict of a report is that of its findings, they are counted as far
as a word reaches, and the template is named. -/
structure Report.Coherent (template : String) (r : Report) : Prop where
  verdict : r.verdict = .ofFindings r.findings
  total : r.data.findingsTotal.toNat = min r.findings.length (2 ^ 32 - 1)
  template : r.data.template = some template

theorem coherent_report_evaluate (doc : Document) (abbreviations : Dictionary String)
    (policy : Policy) (template : String) (startedAt finishedAt : Timestamp) :
    ((evaluate doc abbreviations policy).report template startedAt finishedAt).Coherent
      template where
  verdict := rfl
  total := toNat_saturate (findings doc abbreviations policy).length
  template := rfl

/-- A run with a report is the outcome of that report, which is coherent. -/
theorem coherent_of_report? {σ : Type} {host : Host (StateM σ)} {inputs : Inputs (StateM σ)}
    {s : σ} {report : Report} (h : (runCheck host inputs s).1.report? = some report) :
    (runCheck host inputs s).1 = .ofReport report ∧ report.Coherent inputs.template := by
  have hends := runCheck_ends host inputs s
  generalize (runCheck host inputs s).1 = outcome at h hends ⊢
  cases hends with
  | atTemplate _ => cases h
  | atPolicy _ _ => cases h
  | evaluated startedAt finishedAt _ _ _ _ _ =>
      rw [Outcome.report?_ofReport] at h
      cases h
      exact ⟨rfl, coherent_report_evaluate _ _ _ _ _ _⟩

theorem Verdict.ofFindings_of_ne_nil {fs : List Finding} (h : fs ≠ []) : ofFindings fs = .fail := by
  rw [ofFindings, if_neg (mt List.isEmpty_iff.mp h)]

/-! ## Lists of findings -/

/-- A text is a heading and then an item for each finding, in their order and
numbered from one. -/
def Report.Lists (heading : String) (item : Nat → Finding → String → Prop) (fs : List Finding)
    (text : String) : Prop :=
  ∃ items : List String, List.Forall₂ (fun e s => item e.2 e.1 s) (fs.zipIdx 1) items ∧
    text = heading ++ String.join items

/-- The line of a finding on the terminal. -/
def Finding.OnTerminal (number : Nat) (f : Finding) (s : String) : Prop :=
  s = numeral number ++ ". " ++ f.message ++ "\n"

theorem Finding.onTerminal_textItem (number : Nat) (f : Finding) :
    OnTerminal number f (Report.textItem number f) := rfl

/-- What the document says of the resource of a finding, if there is one. -/
inductive Finding.Place : Option ResourceRef → String → Prop
  | none : Place none ""
  | some (r : ResourceRef) : Place (some r) (" (`" ++ r.type ++ "` `" ++ r.name ++ "`)")

/-- The line of help below a finding, if there is help. -/
inductive Finding.Help : Option String → String → Prop
  | none : Help none ""
  | some (help : String) : Help (some help) ("   - help: " ++ help ++ "\n")

/-- The item of a finding in the document. -/
def Finding.InDocument (number : Nat) (f : Finding) (s : String) : Prop :=
  ∃ place help, Place f.resource place ∧ Help f.help help ∧
    s = numeral number ++ ". `" ++ f.checkId ++ "` / `" ++ f.code ++ "`: " ++ f.message ++ place ++
      "\n" ++ help

theorem Finding.inDocument_markdownItem (number : Nat) (f : Finding) :
    InDocument number f (Report.markdownItem number f) := by
  have hplace : Place f.resource (f.resource.elim "" Report.whereabouts) := by
    cases f.resource with
    | none => exact .none
    | some r =>
        have heq : Report.whereabouts r = " (`" ++ r.type ++ "` `" ++ r.name ++ "`)" := by
          refine String.toList_inj.mp ?_
          simp [Report.whereabouts, Report.quoted]
        rw [Option.elim_some, heq]
        exact .some r
  have hhelp : Help f.help (f.help.elim "" Report.helpLine) := by
    cases f.help with
    | none => exact .none
    | some help => exact .some help
  refine ⟨_, _, hplace, hhelp, String.toList_inj.mp ?_⟩
  simp [Report.markdownItem, Report.quoted]

theorem Report.lists_of_forall {item : Nat → Finding → String → Prop}
    {make : Nat → Finding → String} (h : ∀ number f, item number f (make number f))
    (heading : String) (fs : List Finding) :
    Lists heading item fs
      (heading ++ String.join ((fs.zipIdx 1).map fun (f, number) => make number f)) := by
  refine ⟨_, ?_, rfl⟩
  rw [List.forall₂_map_right_iff, List.forall₂_same]
  exact fun e _ => h e.2 e.1

/-- An annotation of a file is about a finding: a reader of commands takes
from the line the file, the check, and the code, message and resource. -/
def Finding.Annotates (template : String) (f : Finding) (line : String) : Prop :=
  '\n' ∉ line.toList ∧ WorkflowCommand.read? line =
    some ([("file", template), ("title", f.checkId)],
      "[" ++ f.code ++ "] " ++ f.message ++
        f.resource.elim "" fun r => " (" ++ r.type ++ " '" ++ r.name ++ "')")

namespace Report

variable {template : String} {r : Report}

/-! ## Surfaces of a report without findings -/

theorem get?_verdict (r : Report) :
    (codec.toValue r).get? "verdict" = some (.string r.verdict.name) := rfl

theorem get?_findings (r : Report) :
    (codec.toValue r).get? "findings" = some (.array (r.findings.map Finding.toValue)) := rfl

theorem verdict_eq_pass_iff_json :
    (codec.toValue r).get? "verdict" = some (.string "pass") ↔ r.verdict = .pass := by
  rw [get?_verdict]
  cases r.verdict with
  | pass => exact ⟨fun _ => rfl, fun _ => rfl⟩
  | fail =>
      refine ⟨fun h => ?_, nofun⟩
      have hname : Verdict.fail.name = "pass" := Value.string.inj (Option.some.inj h)
      exact absurd hname (by decide)

theorem findings_eq_nil_iff_json :
    (codec.toValue r).get? "findings" = some (.array []) ↔ r.findings = [] := by
  rw [get?_findings, Option.some.injEq, Value.array.injEq, List.map_eq_nil_iff]

theorem findings_eq_nil_iff_text :
    r.toText = "✅ All compliance checks passed!\n" ↔ r.findings = [] := by
  rw [toText]
  constructor
  · intro h
    by_contra hne
    rw [if_neg (mt List.isEmpty_iff.mp hne), String.append_assoc] at h
    -- The two texts differ in their first character.
    have hfirst := congrArg (fun s => s.toList.head?) h
    simp [violationsHeader] at hfirst
  · intro h
    rw [h]
    rfl

/-- The lines above the findings, of a report that is coherent. -/
theorem markdownHead_eq (h : r.Coherent template) : r.markdownHead =
    "# Armguard report\n\n- Verdict: **" ++ verdictMark r.verdict ++ "**\n- Template: `" ++
      template ++ "`\n- Resources scanned: " ++ numeral r.data.resourcesScanned.toNat ++
      "\n- Findings: " ++ numeral (min r.findings.length (2 ^ 32 - 1)) ++ "\n\n" := by
  have htotal := h.total
  generalize min r.findings.length (2 ^ 32 - 1) = total at htotal ⊢
  unfold markdownHead
  rw [h.template, htotal, Option.elim_some]
  generalize numeral r.data.resourcesScanned.toNat = scanned
  generalize numeral total = found
  refine String.toList_inj.mp ?_
  simp [quoted]

theorem findings_eq_nil_iff_markdown (h : r.Coherent template) :
    (∃ middle, r.toMarkdown =
        "# Armguard report\n\n- Verdict: **PASS**\n" ++ middle ++ "No findings.\n") ↔
      r.findings = [] := by
  rw [toMarkdown, markdownHead_eq h]
  constructor
  · rintro ⟨middle, hmiddle⟩
    by_contra hne
    rw [h.verdict, Verdict.ofFindings_of_ne_nil hne] at hmiddle
    generalize numeral (min r.findings.length (2 ^ 32 - 1)) = total at hmiddle
    -- The verdicts stand behind the same title.
    have hverdicts := congrArg String.toList hmiddle
    simp [verdictMark] at hverdicts
  · intro hnil
    refine ⟨"- Template: `" ++ template ++ "`\n- Resources scanned: " ++
      numeral r.data.resourcesScanned.toNat ++ "\n- Findings: " ++ numeral 0 ++ "\n\n", ?_⟩
    rw [h.verdict, hnil, Verdict.ofFindings_eq_pass_iff.mpr rfl, List.length_nil, Nat.zero_min]
    refine String.toList_inj.mp ?_
    simp [verdictMark]

theorem findings_eq_nil_iff_annotations : r.annotationLines none = [] ↔ r.findings = [] := by
  rw [annotationLines, annotations, List.map_eq_nil_iff, List.map_eq_nil_iff]

/-! ## Surfaces of a report with findings -/

theorem lists_toText (h : r.findings ≠ []) :
    Lists "❌ Compliance Issues Found:\n" Finding.OnTerminal r.findings
      r.toText := by
  have hheading : violationsHeader ++ "\n" = "❌ Compliance Issues Found:\n" := rfl
  rw [toText, if_neg (mt List.isEmpty_iff.mp h), hheading]
  exact lists_of_forall Finding.onTerminal_textItem _ _

theorem lists_toMarkdown (h : r.Coherent template) (hne : r.findings ≠ []) :
    Lists ("# Armguard report\n\n- Verdict: **FAIL**\n- Template: `" ++ template ++
        "`\n- Resources scanned: " ++ numeral r.data.resourcesScanned.toNat ++
        "\n- Findings: " ++ numeral (min r.findings.length (2 ^ 32 - 1)) ++
        "\n\n## Findings\n\n")
      Finding.InDocument r.findings r.toMarkdown := by
  have hheading : r.markdownHead ++ "## Findings\n\n" =
      "# Armguard report\n\n- Verdict: **FAIL**\n- Template: `" ++ template ++
        "`\n- Resources scanned: " ++ numeral r.data.resourcesScanned.toNat ++
        "\n- Findings: " ++ numeral (min r.findings.length (2 ^ 32 - 1)) ++
        "\n\n## Findings\n\n" := by
    rw [markdownHead_eq h, h.verdict, Verdict.ofFindings_of_ne_nil hne]
    generalize numeral r.data.resourcesScanned.toNat = scanned
    generalize numeral (min r.findings.length (2 ^ 32 - 1)) = found
    refine String.toList_inj.mp ?_
    simp [verdictMark]
  rw [toMarkdown, if_neg (mt List.isEmpty_iff.mp hne), ← String.append_assoc, hheading]
  exact lists_of_forall Finding.inDocument_markdownItem _ _

theorem forall₂_annotates (h : r.data.template = some template) :
    List.Forall₂ (fun f line => f.Annotates template line) r.findings (r.annotationLines none) := by
  rw [annotationLines, annotations, List.map_map, List.forall₂_map_right_iff, List.forall₂_same, h]
  intro f _
  exact ⟨fun hmem => (WorkflowCommand.ne_of_mem_line hmem).2 rfl, WorkflowCommand.read?_line _⟩

end Report

/-! ## All surfaces -/

/-- What a run says that has found something. -/
structure Outcome.Complains (template : String) (outcome : Outcome) (r : Report) : Prop where
  exit : outcome.exitCode = 1
  verdict : (Report.codec.toValue r).get? "verdict" = some (.string "fail")
  findings : (Report.codec.toValue r).get? "findings" =
    some (.array (r.findings.map Finding.toValue))
  /-- On the terminal the messages stand below a header. -/
  terminal : Report.Lists "❌ Compliance Issues Found:\n" Finding.OnTerminal r.findings r.toText
  /-- The number in the document ends at the greatest word, the list does not. -/
  document : Report.Lists
    ("# Armguard report\n\n- Verdict: **FAIL**\n- Template: `" ++ template ++
      "`\n- Resources scanned: " ++ numeral r.data.resourcesScanned.toNat ++
      "\n- Findings: " ++ numeral (min r.findings.length (2 ^ 32 - 1)) ++
      "\n\n## Findings\n\n")
    Finding.InDocument r.findings r.toMarkdown
  annotations : List.Forall₂ (fun f line => f.Annotates template line) r.findings
    (r.annotationLines none)

/-- The surfaces of a run with a report say the same. -/
structure Outcome.Agrees (template : String) (outcome : Outcome) (r : Report) : Prop where
  /-- The file of the JSON report is the text of this value. -/
  json : r.toJson = (Report.codec.toValue r).pretty ++ "\n"
  /-- That nothing was found can be told from each of them. -/
  clean : [outcome.exitCode = 0,
    (Report.codec.toValue r).get? "verdict" = some (.string "pass"),
    (Report.codec.toValue r).get? "findings" = some (.array []),
    r.toText = "✅ All compliance checks passed!\n",
    ∃ middle, r.toMarkdown =
      "# Armguard report\n\n- Verdict: **PASS**\n" ++ middle ++ "No findings.\n",
    r.annotationLines none = [],
    r.findings = []].TFAE
  complaint : r.findings ≠ [] → outcome.Complains template r

theorem Outcome.agrees_ofReport {template : String} {r : Report} (h : r.Coherent template) :
    (ofReport r).Agrees template r where
  json := rfl
  clean := by
    have hpass : r.verdict = .pass ↔ r.findings = [] := by
      rw [h.verdict, Verdict.ofFindings_eq_pass_iff]
    refine List.tfae_of_forall (r.findings = []) _ ?_
    simp only [List.forall_mem_cons]
    exact ⟨(ofReport_clean_iff r).2.trans hpass, Report.verdict_eq_pass_iff_json.trans hpass,
      Report.findings_eq_nil_iff_json, Report.findings_eq_nil_iff_text,
      Report.findings_eq_nil_iff_markdown h, Report.findings_eq_nil_iff_annotations, trivial,
      List.forall_mem_nil _⟩
  complaint := by
    intro hne
    have hverdict : r.verdict = .fail := h.verdict.trans (Verdict.ofFindings_of_ne_nil hne)
    exact {
      exit := by rw [ofReport, hverdict]; rfl
      verdict := by rw [Report.get?_verdict, hverdict]; rfl
      findings := Report.get?_findings r
      terminal := Report.lists_toText hne
      document := Report.lists_toMarkdown h hne
      annotations := Report.forall₂_annotates h.template }

variable {σ : Type} {host : Host (StateM σ)} {inputs : Inputs (StateM σ)} {s : σ}
  {report : Report}

/-- To end with exit code 0 it is not enough that nothing was found: a run that
fails finds nothing either. -/
theorem exitCode_runCheck_eq_zero_iff : (runCheck host inputs s).1.exitCode = 0 ↔
    (∃ report, (runCheck host inputs s).1.report? = some report) ∧
      (runCheck host inputs s).1.findings = [] := by
  cases hreport : (runCheck host inputs s).1.report? with
  | none =>
      have hcode : (runCheck host inputs s).1.exitCode = 1 := by
        generalize (runCheck host inputs s).1 = outcome at hreport
        cases outcome with
        | environmentFailure _ _ => rfl
        | _ => cases hreport
      rw [hcode]
      constructor
      · intro h
        exact absurd h (by decide)
      · rintro ⟨⟨_, h⟩, -⟩
        cases h
  | some report =>
      obtain ⟨houtcome, hcoherent⟩ := coherent_of_report? hreport
      have hcode := (Outcome.ofReport_clean_iff report).2
      rw [← houtcome, hcoherent.verdict, Verdict.ofFindings_eq_pass_iff] at hcode
      rw [hcode, Outcome.findings, hreport]
      exact ⟨fun h => ⟨⟨report, rfl⟩, h⟩, And.right⟩

/-- Every run that evaluates, on whatever host and of whatever template, says
the same by its exit code, its JSON report, on the terminal, in its document
and by its annotations. -/
theorem surfaces_agree (h : (runCheck host inputs s).1.report? = some report) :
    (runCheck host inputs s).1.Agrees inputs.template report := by
  obtain ⟨houtcome, hcoherent⟩ := coherent_of_report? h
  rw [houtcome]
  exact Outcome.agrees_ofReport hcoherent

/-- Of the two servers of a template one is complained about. -/
theorem surfaces_agree_of_notedRoot :
    ∃ report, (runCheck Machine.host (.ofTemplate (.object notedRoot) none)
        .withTemplate).1.report? = some report ∧
      (runCheck Machine.host (.ofTemplate (.object notedRoot) none) .withTemplate).1.exitCode = 1 ∧
      report.toText =
        "❌ Compliance Issues Found:\n1. SQL Server has public network access enabled\n" ∧
      (report.annotationLines none).length = 1 := by
  have hresolved : Config.default.resolve none =
      .ok ⟨"strict", ⟨true, true, true⟩, defaultOversized⟩ := rfl
  have hmessages : (findings (Document.ofEntries notedEntries) .empty
      ⟨"strict", ⟨true, true, true⟩, defaultOversized⟩).map (·.message) =
      ["SQL Server has public network access enabled"] := by decide +kernel
  obtain ⟨f, hfindings, hmessage⟩ := List.map_eq_singleton_iff.mp hmessages
  obtain ⟨startedAt, finishedAt, hrun⟩ :=
    runCheck_of_prepared (prepared_ofTemplate writable_notedRoot rfl hresolved)
  obtain ⟨report, hone, hreport⟩ : ∃ report : Report, report.findings = [f] ∧
      (runCheck Machine.host (.ofTemplate (.object notedRoot) none) .withTemplate).1.report? =
        some report :=
    ⟨_, hfindings, (congrArg Outcome.report? hrun).trans (Outcome.report?_ofReport _)⟩
  have hcomplains := (surfaces_agree hreport).complaint (hone ▸ List.cons_ne_nil f [])
  refine ⟨report, hreport, hcomplains.exit, ?_, ?_⟩
  · obtain ⟨items, hitems, htext⟩ := hcomplains.terminal
    rw [hone] at hitems
    cases hitems with
    | cons hitem hrest =>
        cases hrest
        rw [htext, show _ = _ from hitem, hmessage]
        show _ ++ String.join [numeral 1 ++ _ ++ _ ++ _] = _
        decide +kernel
  · rw [← hcomplains.annotations.length_eq, hone]
    rfl

end TemplateGate
