/-
# `Proofs.CommandLine.Status` — the exit status of `check`, and what it leaves behind

A run of `check` succeeds only at the end of a chain: the compiler is one
that comes with the gate, the evaluation ends clean, the JSON report is
saved, and behind it the document.  Whatever breaks the chain makes the
status 1, and what stands behind the break is not done.  `Exits` says so
of any host, by the operations that a run has carried out: its state is the
one that these lead to, and there are no others.

On a machine it can be said in files (`LeavesFiles`).  Before the
evaluation has ended in a report the files are those that the compiler left
behind, which may be any, so they are compared with what the command makes
of the files by itself.
-/
import TemplateGate.Proofs.CommandLine.Console

namespace TemplateGate

open Text

theorem FrontEnd.ofName?_eq_some_iff {name : String} {frontEnd : FrontEnd} :
    ofName? name = some frontEnd ↔ name = frontEnd.name := by
  constructor
  · intro h
    have hname := List.find?_some h
    exact (of_decide_eq_true hname).symm
  · rintro rfl
    cases frontEnd <;> rfl

theorem Outcome.exitCode_eq_zero_or_one (o : Outcome) : o.exitCode = 0 ∨ o.exitCode = 1 := by
  cases o with
  | clean => exact .inl rfl
  | violations => exact .inr rfl
  | environmentFailure => exact .inr rfl

theorem Outcome.exitCode_eq_zero_iff {o : Outcome} : o.exitCode = 0 ↔ ∃ r, o = .clean r := by
  cases o with
  | clean r => exact ⟨fun _ => ⟨r, rfl⟩, fun _ => rfl⟩
  | violations => exact ⟨nofun, nofun⟩
  | environmentFailure => exact ⟨nofun, nofun⟩

namespace CommandLine

/-! ## On any host -/

section Host

variable {σ : Type} {host : Host (StateM σ)} {options : CheckOptions} {frontEnd : FrontEnd}
  {s : σ} {report : Report}

/-- How a run of `check` ends: its status, and the operations that have led
to its state. -/
structure Exits (host : Host (StateM σ)) (options : CheckOptions) (s : σ)
    (result : UInt32 × σ) : Prop where
  zero_or_one : result.1 = 0 ∨ result.1 = 1
  /-- A run succeeds if its compiler is known, nothing was found, and the
  JSON report and then the document were saved, as far as they were asked for. -/
  zero_iff : result.1 = 0 ↔ ∃ (frontEnd : FrontEnd) (report : Report) (s₁ s₂ : σ),
    options.compiler = frontEnd.name ∧ (evaluated host options frontEnd s).1 = .clean report ∧
      host.Puts options.reportOut report.toJson
        (host.print report.toText (evaluated host options frontEnd s).2).2 (.ok (), s₁) ∧
      host.Puts options.markdownOut report.toMarkdown s₁ (.ok (), s₂)
  /-- If the compiler is unknown nothing happens but that an error is printed. -/
  unknown : (∀ frontEnd : FrontEnd, options.compiler ≠ frontEnd.name) →
    result.2 = (host.printError
      ("Error: unknown compiler: " ++ options.compiler ++ " (expected az or bicep)\n") s).2
  /-- If the evaluation fails, the first line and an error that names the
  stage are printed, and between them there are only queries. -/
  failed : ∀ (frontEnd : FrontEnd) stage reason, options.compiler = frontEnd.name →
    (evaluated host options frontEnd s).1 = .environmentFailure stage reason →
      host.Queries frontEnd.command options.template (greeted host options s)
        (evaluated host options frontEnd s).2 ∧
      result.2 = (host.printError (stageHeading stage ++ reason ++ "\n")
        (evaluated host options frontEnd s).2).2
  /-- If it ends in a report, there were only queries before it, and what is
  done with it ends at the first file that cannot be saved. -/
  reported : ∀ (frontEnd : FrontEnd) report, options.compiler = frontEnd.name →
    (evaluated host options frontEnd s).1.report? = some report →
      host.Queries frontEnd.command options.template (greeted host options s)
        (evaluated host options frontEnd s).2 ∧
      (Delivers host options report (evaluated host options frontEnd s).2 (.ok (), result.2) ∨
        ∃ complaint s₁,
          Delivers host options report (evaluated host options frontEnd s).2
            (.error complaint, s₁) ∧
          result.2 = (host.printError complaint.toText s₁).2)

theorem exits_of_unknown (h : FrontEnd.ofName? options.compiler = none) :
    Exits host options s (check host options s) := by
  have hunknown : ∀ frontEnd : FrontEnd, options.compiler ≠ frontEnd.name := by
    intro frontEnd hname
    rw [FrontEnd.ofName?_eq_some_iff.mpr hname] at h
    cases h
  rw [check_of_unknown h]
  exact {
    zero_or_one := .inr rfl
    zero_iff := by
      refine ⟨nofun, ?_⟩
      rintro ⟨frontEnd, _, _, _, hname, _⟩
      exact absurd hname (hunknown frontEnd)
    unknown := fun _ => rfl
    failed := fun frontEnd _ _ hname _ => absurd hname (hunknown frontEnd)
    reported := fun frontEnd _ hname _ => absurd hname (hunknown frontEnd) }

theorem eq_of_known (h : FrontEnd.ofName? options.compiler = some frontEnd) {frontEnd' : FrontEnd}
    (hname : options.compiler = frontEnd'.name) : frontEnd' = frontEnd :=
  Option.some.inj ((FrontEnd.ofName?_eq_some_iff.mpr hname).symm.trans h)

theorem exits_of_failure {stage : Stage} {reason : String}
    (h : FrontEnd.ofName? options.compiler = some frontEnd)
    (hfailed : (evaluated host options frontEnd s).1 = .environmentFailure stage reason) :
    Exits host options s (check host options s) := by
  rw [check_of_failure h hfailed]
  exact {
    zero_or_one := .inr rfl
    zero_iff := by
      refine ⟨nofun, ?_⟩
      rintro ⟨frontEnd', _, _, _, hname, hclean, _⟩
      cases eq_of_known h hname
      rw [hfailed] at hclean
      cases hclean
    unknown := fun hunknown =>
      absurd (FrontEnd.ofName?_eq_some_iff.mp h) (hunknown frontEnd)
    failed := by
      intro frontEnd' stage' reason' hname hfailed'
      cases eq_of_known h hname
      cases hfailed.symm.trans hfailed'
      exact ⟨queries_evaluated host options frontEnd s, rfl⟩
    reported := by
      intro frontEnd' report hname hreport
      cases eq_of_known h hname
      rw [hfailed] at hreport
      cases hreport }

/-- The status of a run with a report: that of its outcome if the report
could be put out, and 1 otherwise. -/
theorem check_of_report (h : FrontEnd.ofName? options.compiler = some frontEnd)
    (hreport : (evaluated host options frontEnd s).1.report? = some report) :
    ((deliver host options report (evaluated host options frontEnd s).2).1 = .ok () ∧
      (check host options s).1 = (evaluated host options frontEnd s).1.exitCode ∧
      Delivers host options report (evaluated host options frontEnd s).2
        (.ok (), (check host options s).2)) ∨
    ((deliver host options report (evaluated host options frontEnd s).2).1 ≠ .ok () ∧
      (check host options s).1 = 1 ∧ ∃ complaint s₁,
        Delivers host options report (evaluated host options frontEnd s).2
          (.error complaint, s₁) ∧
        (check host options s).2 = (host.printError complaint.toText s₁).2) := by
  have hdelivers := delivers host options report (evaluated host options frontEnd s).2
  cases hdeliver : deliver host options report (evaluated host options frontEnd s).2 with
  | mk done s₁ =>
      rw [hdeliver] at hdelivers
      cases done with
      | ok _ =>
          rw [check_of_delivered h hreport hdeliver]
          exact .inl ⟨rfl, rfl, hdelivers⟩
      | error complaint =>
          rw [check_of_undelivered h hreport hdeliver]
          exact .inr ⟨nofun, rfl, complaint, s₁, hdelivers, rfl⟩

theorem exits_of_report (h : FrontEnd.ofName? options.compiler = some frontEnd)
    (hreport : (evaluated host options frontEnd s).1.report? = some report) :
    Exits host options s (check host options s) := by
  have hstatus := check_of_report h hreport
  have hclean : ∀ {report'}, (evaluated host options frontEnd s).1 = .clean report' →
      report' = report := by
    intro report' hclean
    rw [hclean] at hreport
    exact Option.some.inj hreport
  exact {
    zero_or_one := by
      rcases hstatus with ⟨-, hcode, -⟩ | ⟨-, hone, -⟩
      · rw [hcode]
        exact Outcome.exitCode_eq_zero_or_one _
      · exact .inr hone
    zero_iff := by
      constructor
      · intro hzero
        rcases hstatus with ⟨hdelivered, hcode, -⟩ | ⟨-, hone, -⟩
        · rw [hcode, Outcome.exitCode_eq_zero_iff] at hzero
          obtain ⟨report', hreport'⟩ := hzero
          cases hclean hreport'
          obtain ⟨s₁, s₂, hjson, hmarkdown⟩ := deliver_eq_ok_iff.mp hdelivered
          exact ⟨frontEnd, report, s₁, s₂, FrontEnd.ofName?_eq_some_iff.mp h, hreport', hjson,
            hmarkdown⟩
        · rw [hone] at hzero
          cases hzero
      · rintro ⟨frontEnd', report', s₁, s₂, hname, hreport', hjson, hmarkdown⟩
        cases eq_of_known h hname
        cases hclean hreport'
        rcases hstatus with ⟨-, hcode, -⟩ | ⟨hundelivered, -⟩
        · rw [hcode, Outcome.exitCode_eq_zero_iff]
          exact ⟨report, hreport'⟩
        · exact absurd (deliver_eq_ok_iff.mpr ⟨s₁, s₂, hjson, hmarkdown⟩) hundelivered
    unknown := fun hunknown =>
      absurd (FrontEnd.ofName?_eq_some_iff.mp h) (hunknown frontEnd)
    failed := by
      intro frontEnd' stage reason hname hfailed
      cases eq_of_known h hname
      rw [hfailed] at hreport
      cases hreport
    reported := by
      intro frontEnd' report' hname hreport'
      cases eq_of_known h hname
      cases hreport.symm.trans hreport'
      refine ⟨queries_evaluated host options frontEnd s, ?_⟩
      rcases hstatus with ⟨-, -, hdelivers⟩ | ⟨-, -, hstopped⟩
      · exact .inl hdelivers
      · exact .inr hstopped }

theorem exits_check (host : Host (StateM σ)) (options : CheckOptions) (s : σ) :
    Exits host options s (check host options s) := by
  cases hknown : FrontEnd.ofName? options.compiler with
  | none => exact exits_of_unknown hknown
  | some frontEnd =>
      cases houtcome : (evaluated host options frontEnd s).1 with
      | environmentFailure stage reason => exact exits_of_failure hknown houtcome
      | clean report => exact exits_of_report hknown (by rw [houtcome]; rfl)
      | violations report => exact exits_of_report hknown (by rw [houtcome]; rfl)

end Host

/-! ## On a machine -/

section Machine

variable {options : CheckOptions} {s : Machine} {result : UInt32 × Machine}

/-- What a run of `check` has done to the files of a machine. -/
structure LeavesFiles (options : CheckOptions) (s : Machine) (result : UInt32 × Machine) :
    Prop where
  unknown : (∀ frontEnd : FrontEnd, options.compiler ≠ frontEnd.name) →
    result.2.files = s.files
  /-- If the evaluation fails, only the command of the compiler has touched a file. -/
  failed : ∀ (frontEnd : FrontEnd) stage reason, options.compiler = frontEnd.name →
    (evaluated Machine.host options frontEnd s).1 = .environmentFailure stage reason →
      Machine.OnlyRan frontEnd.command.program (frontEnd.command.argumentsFor options.template)
        { s with
          stdout := s.stdout ++ ("Compiling " ++ options.template ++ "...\n")
          stderr := s.stderr ++ (stageHeading stage ++ reason ++ "\n") } result.2
  /-- If the JSON report cannot be saved, there are at most new directories. -/
  stopped : ∀ (frontEnd : FrontEnd) report causes s₁, options.compiler = frontEnd.name →
    (evaluated Machine.host options frontEnd s).1.report? = some report →
      Machine.host.Puts options.reportOut report.toJson
        (Machine.host.print report.toText (evaluated Machine.host options frontEnd s).2).2
        (.error causes, s₁) →
      (evaluated Machine.host options frontEnd s).2.files.GainsDirectories result.2.files
  /-- A run that succeeds leaves the document behind, and the JSON report,
  unless the document was saved in its place. -/
  readable : ∀ (frontEnd : FrontEnd) report, options.compiler = frontEnd.name →
    (evaluated Machine.host options frontEnd s).1 = .clean report → result.1 = 0 →
      (∀ path, options.markdownOut = some path →
        result.2.files.readText path = .ok report.toMarkdown) ∧
      (∀ path, options.reportOut = some path →
        result.2.files.readText path = .ok report.toJson ∨
          ∃ path', options.markdownOut = some path' ∧
            result.2.files.resolve path = result.2.files.resolve path')

theorem files_annotated (options : CheckOptions) (report : Report) (s : Machine) :
    (annotated Machine.host options report s).files = s.files := by
  rw [annotated]
  cases options.annotations <;> rfl

theorem Exits.leavesFiles (h : Exits Machine.host options s result) :
    LeavesFiles options s result where
  unknown := fun hunknown => by
    rw [h.unknown hunknown]
    rfl
  failed := by
    intro frontEnd stage reason hname hfailed
    obtain ⟨hqueries, heq⟩ := h.failed frontEnd stage reason hname hfailed
    rw [heq]
    exact (Machine.onlyRan_of_queries hqueries).printError (stageHeading stage ++ reason ++ "\n")
  stopped := by
    intro frontEnd report causes s₁ hname hreport hunsaved
    obtain ⟨above, hgains, hs₁⟩ := Machine.gainsDirectories_of_puts_error hunsaved
    obtain ⟨-, hdelivers⟩ := h.reported frontEnd report hname hreport
    rcases hdelivers with hdelivers | ⟨complaint, s₂, hdelivers, heq⟩
    · generalize result.2 = s' at hdelivers
      cases hdelivers with
      | complete hjson => cases puts_unique hunsaved hjson
    · rw [heq]
      cases hdelivers with
      | jsonUnsaved hjson =>
          cases puts_unique hunsaved hjson
          rw [hs₁]
          exact hgains
      | markdownUnsaved hjson => cases puts_unique hunsaved hjson
  readable := by
    intro frontEnd report hname hclean hzero
    obtain ⟨frontEnd', report', s₁, s₂, hname', hclean', hjson, hmarkdown⟩ := h.zero_iff.mp hzero
    cases eq_of_known (FrontEnd.ofName?_eq_some_iff.mpr hname) hname'
    cases hclean.symm.trans hclean'
    obtain ⟨-, hdelivers⟩ := h.reported frontEnd report hname (by rw [hclean]; rfl)
    have hfiles : result.2.files = s₂.files := by
      rcases hdelivers with hdelivers | ⟨complaint, s₃, hdelivers, -⟩
      · generalize result.2 = s' at hdelivers
        cases hdelivers with
        | complete hjson' hmarkdown' =>
            cases puts_unique hjson hjson'
            cases puts_unique hmarkdown hmarkdown'
            exact files_annotated options report s₂
      · cases hdelivers with
        | jsonUnsaved hjson' => cases puts_unique hjson hjson'
        | markdownUnsaved hjson' hmarkdown' =>
            cases puts_unique hjson hjson'
            cases puts_unique hmarkdown hmarkdown'
    rw [hfiles]
    constructor
    · intro path hpath
      rw [hpath] at hmarkdown
      exact Machine.readText_of_puts hmarkdown
    · intro path hpath
      rw [hpath] at hjson
      exact Machine.readText_of_puts_of_puts hjson hmarkdown

end Machine

/-- Whatever `check` is asked for, on whatever host, the status is 0 exactly
if everything that was asked for is done, and a run that fails has done
nothing beyond the step that failed; and what that means for the files of a
machine. -/
theorem check_exits {arguments : List String} {options : CheckOptions}
    (hasked : Request.ofArguments? arguments = some (.check options)) :
    (∀ {σ : Type} (host : Host (StateM σ)) (s : σ),
      Exits host options s (run host arguments s)) ∧
    ∀ s : Machine, LeavesFiles options s (run Machine.host arguments s) := by
  have hexits : ∀ {σ : Type} (host : Host (StateM σ)) (s : σ),
      Exits host options s (run host arguments s) := by
    intro σ host s
    rw [run, hasked]
    exact exits_check host options s
  exact ⟨hexits, fun s => (hexits Machine.host s).leavesFiles⟩

/-! ## A run that saves its report -/

/-- The arguments that ask for a JSON report, and what they ask for. -/
def savingArguments : List String := ["check", "main.json", "--report-out", "report.json"]

def saving : CheckOptions :=
  ⟨"main.json", "abbreviations.json", "armguard.toml", none, "az", some "report.json", none, none⟩

/-- A template without resources. -/
def emptyRoot : Json.Value := .object [("resources", .array [])]

theorem isName_report : FileTree.IsName "report.json" := by
  constructor <;> decide +kernel

/-- There is no program on its machine that could have changed the files. -/
theorem files_evaluated_emptyRoot :
    (evaluated Machine.host saving .az (.withCompiled emptyRoot)).2.files =
      (Machine.withCompiled emptyRoot).files := by
  obtain ⟨n, -, hfiles⟩ := (Machine.onlyRan_of_queries
    (queries_evaluated Machine.host saving .az (.withCompiled emptyRoot))).files
  exact hfiles.trans (Function.iterate_fixed (Machine.leftBehind_of_eq_none rfl _) n)

/-- Of such a template the run succeeds, and its report can be read. -/
theorem check_exits_of_emptyRoot :
    Request.ofArguments? savingArguments = some (.check saving) ∧
      (run Machine.host savingArguments (.withCompiled emptyRoot)).1 = 0 ∧
      ∃ report : Report, report.verdict = .pass ∧
        (run Machine.host savingArguments (.withCompiled emptyRoot)).2.files.readText
          "report.json" = .ok report.toJson := by
  have hasked : Request.ofArguments? savingArguments = some (.check saving) := by decide +kernel
  obtain ⟨hexits, hfiles⟩ := check_exits hasked
  have hroot : emptyRoot.Writable Json.maxDepth :=
    Json.Value.writable_singleton (Json.Value.writable_array fun _ h => absurd h List.not_mem_nil)
  have hprepared :
      Prepared Machine.host (inputs saving .az (.withCompiled emptyRoot)) _ _ _ _ _ _ :=
    prepared_withCompiled hroot rfl rfl rfl rfl rfl .az
  obtain ⟨startedAt, finishedAt, hjudged⟩ := runCheck_of_prepared hprepared
  obtain ⟨report, hpass, hclean⟩ : ∃ report : Report, report.verdict = .pass ∧
      (evaluated Machine.host saving .az (.withCompiled emptyRoot)).1 = .clean report := by
    rw [evaluated_machine]
    exact ⟨_, rfl, hjudged⟩
  have hwrite := FileTree.write_name (t := (Machine.withCompiled emptyRoot).files) isName_report
    (by decide +kernel) (by decide +kernel) (encode report.toJson)
  rw [← files_evaluated_emptyRoot] at hwrite
  have hjson := Machine.puts_of_write (s := (Machine.host.print report.toText
    (evaluated Machine.host saving .az (.withCompiled emptyRoot)).2).2)
    (show Path.parent? "report.json" = none by decide +kernel) hwrite
  have hzero : (run Machine.host savingArguments (.withCompiled emptyRoot)).1 = 0 :=
    (hexits Machine.host _).zero_iff.mpr ⟨.az, report, _, _, rfl, hclean, hjson, .unasked⟩
  refine ⟨hasked, hzero, report, hpass, ?_⟩
  rcases ((hfiles _).readable .az report rfl hclean hzero).2 "report.json" rfl with
    hread | ⟨_, hnone, _⟩
  · exact hread
  · cases hnone

end CommandLine

end TemplateGate
