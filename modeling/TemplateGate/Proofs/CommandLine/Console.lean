/-
# `Proofs.CommandLine.Console` — the lines that `check` prints

Two renderers write to the standard output of one run, and a build service
takes each line there that begins with two colons for a command.
Annotations are such lines.  They are escaped, so that each is one line
(`WorkflowCommand.ne_of_mem_line`).  The report for the terminal is not: a
message is printed as it is, and the names and types of resources, the
full terms and the recommendations stand in it letter by letter.  Where
one of them holds a line feed, what comes behind it begins a line.

`stdout_of_check` says which lines a run prints.  The commands among them
are those in the messages, `Report.forged`, and then the annotations.
There are none in the messages if the texts that go into them hold no line
feed; `command_forged_by_type` is a template with a type that holds one.

Nothing else is printed: an evaluation asks and runs the compiler
(`stdout_judged`), and of the files that are written between the report and
the annotations nothing is said (`stdout_deliver`).
-/
import TemplateGate.Proofs.CommandLine.Course
import TemplateGate.Proofs.Machine.Files
import TemplateGate.Proofs.Report.CommandReader
import TemplateGate.Proofs.Sites
import TemplateGate.Proofs.Text.Lines

namespace TemplateGate

open Json Text

/-! ## The texts of a report -/

namespace Report

/-- What is meant as the lines of the report: one line that all is well, or
a header and the numbered messages. -/
def items (r : Report) : List String :=
  if r.findings.isEmpty then [cleanMarker]
  else violationsHeader ::
    (r.findings.zipIdx 1).map fun (f, number) => numeral number ++ ". " ++ f.message

theorem toText_eq_printed (r : Report) : r.toText = printed r.items := by
  rw [toText, items]
  split
  · simp [printed, String.join_cons]
  · simp only [printed, List.map_cons, String.join_cons, List.map_map]
    rfl

theorem lineFeed_not_mem_label (number : Nat) : '\n' ∉ (numeral number ++ ". ").toList := by
  intro h
  rw [String.toList_append, numeral, String.toList_ofList, List.mem_append] at h
  rcases h with h | h
  · exact absurd (isDigit_of_mem_toDigits h) (by decide)
  · exact absurd h (by decide)

/-- The lines of the report: what is meant as its lines, broken where a
message holds a line feed. -/
theorem lines_toText (r : Report) : lines r.toText =
    if r.findings.isEmpty then [cleanMarker]
    else violationsHeader :: (r.findings.zipIdx 1).flatMap fun (f, number) =>
      (numeral number ++ ". " ++ firstPiece f.message) :: laterPieces f.message := by
  rw [toText_eq_printed, lines_printed, items]
  split
  · exact flatMap_pieces_eq_self_iff.mpr (List.forall_mem_singleton.mpr (by decide))
  · rw [List.flatMap_cons, List.flatMap_map, pieces_eq_singleton (by decide)]
    refine congrArg (violationsHeader :: ·) (List.flatMap_congr fun e _ => ?_)
    exact pieces_append (lineFeed_not_mem_label e.2) e.1.message

theorem mem_items_of_mem_findings {r : Report} {f : Finding} (hf : f ∈ r.findings) :
    ∃ number, numeral number ++ ". " ++ f.message ∈ r.items := by
  obtain ⟨n, hn, rfl⟩ := List.mem_iff_getElem.mp hf
  have hne : r.findings.isEmpty = false := by
    cases h : r.findings with
    | nil => simp [h] at hn
    | cons => rfl
  refine ⟨1 + n, ?_⟩
  rw [items, hne]
  exact List.mem_cons_of_mem _ (List.mem_map.mpr
    ⟨(r.findings[n], 1 + n),
      List.mk_add_mem_zipIdx_iff_getElem?.mpr (List.getElem?_eq_getElem hn), rfl⟩)

/-- The lines are what is meant exactly if no message holds a line feed. -/
theorem lines_toText_eq_items_iff (r : Report) :
    lines r.toText = r.items ↔ ∀ f ∈ r.findings, '\n' ∉ f.message.toList := by
  rw [toText_eq_printed, lines_printed, flatMap_pieces_eq_self_iff]
  constructor
  · intro h f hf hmem
    obtain ⟨number, hitem⟩ := mem_items_of_mem_findings hf
    refine h _ hitem ?_
    rw [String.toList_append]
    exact List.mem_append_right _ hmem
  · intro h s hs
    rw [items] at hs
    split at hs
    · exact List.mem_singleton.mp hs ▸ by decide
    · rcases List.mem_cons.mp hs with rfl | hs
      · decide
      · obtain ⟨e, he, rfl⟩ := List.mem_map.mp hs
        rw [String.toList_append]
        intro hmem
        rcases List.mem_append.mp hmem with hmem | hmem
        · exact lineFeed_not_mem_label e.2 hmem
        · exact h e.1 (List.fst_mem_of_mem_zipIdx he) hmem

end Report

/-! ## The commands among the lines -/

/-- A build service takes a line for a command that begins with two colons. -/
def isCommand (line : String) : Bool := "::".toList.isPrefixOf line.toList

/-- The lines of a text that are taken for commands. -/
def commandLines (s : String) : List String := (lines s).filter isCommand

/-- The commands in the messages of a report. -/
def Report.forged (r : Report) : List String :=
  r.findings.flatMap fun f => (laterPieces f.message).filter isCommand

theorem isCommand_append_eq_false {s : String} {c : Char} (hs : s.toList.head? = some c)
    (hc : c ≠ ':') (t : String) : isCommand (s ++ t) = false := by
  rw [isCommand, String.toList_append]
  cases hlist : s.toList with
  | nil => simp [hlist] at hs
  | cons d rest =>
      rw [hlist, List.head?_cons, Option.some.injEq] at hs
      show (':' :: [':']).isPrefixOf (d :: (rest ++ t.toList)) = false
      rw [List.isPrefixOf_cons_cons, hs, beq_eq_false_iff_ne.mpr hc.symm, Bool.false_and]

theorem isCommand_label_append (number : Nat) (s : String) :
    isCommand (numeral number ++ ". " ++ s) = false := by
  have hne : Nat.toDigits 10 number ≠ [] := Nat.toDigits_ne_nil
  obtain ⟨d, rest, hdigits⟩ := List.exists_cons_of_ne_nil hne
  have hd : d.isDigit = true := isDigit_of_mem_toDigits (hdigits ▸ List.mem_cons_self)
  refine isCommand_append_eq_false (c := d) ?_ ?_ s
  · rw [String.toList_append, numeral, String.toList_ofList, hdigits]
    rfl
  · rintro rfl
    exact absurd hd (by decide)

theorem isCommand_line (a : WorkflowCommand) : isCommand a.line = true := by
  rw [isCommand, WorkflowCommand.toList_line]
  rfl

theorem exists_of_mem_annotationLines {r : Report} {cap : Option Nat} {line : String}
    (h : line ∈ r.annotationLines cap) : ∃ a : WorkflowCommand, line = a.line := by
  have hall : line ∈ r.annotations.map WorkflowCommand.line := by
    cases cap with
    | none => exact h
    | some most => exact List.mem_of_mem_take h
  obtain ⟨a, -, rfl⟩ := List.mem_map.mp hall
  exact ⟨a, rfl⟩

theorem annotationLines_printed (r : Report) (cap : Option Nat) :
    (r.annotationLines cap).flatMap pieces = r.annotationLines cap ∧
      (r.annotationLines cap).filter isCommand = r.annotationLines cap := by
  constructor
  · refine flatMap_pieces_eq_self_iff.mpr fun line hline hmem => ?_
    obtain ⟨a, rfl⟩ := exists_of_mem_annotationLines hline
    exact (WorkflowCommand.ne_of_mem_line hmem).2 rfl
  · refine List.filter_eq_self.mpr fun line hline => ?_
    obtain ⟨a, rfl⟩ := exists_of_mem_annotationLines hline
    exact isCommand_line a

theorem commandLines_toText (r : Report) : commandLines r.toText = r.forged := by
  rw [commandLines, Report.lines_toText]
  split
  · rename_i hempty
    rw [Report.forged, List.isEmpty_iff.mp hempty]
    decide
  · rw [List.filter_cons_of_neg (by decide), List.filter_flatMap, Report.forged]
    have hmessages : ∀ e : Finding × Nat,
        ((numeral e.2 ++ ". " ++ firstPiece e.1.message) :: laterPieces e.1.message).filter
          isCommand = (laterPieces e.1.message).filter isCommand := by
      intro e
      refine List.filter_cons_of_neg ?_
      rw [isCommand_label_append]
      decide
    calc (r.findings.zipIdx 1).flatMap (fun e =>
          ((numeral e.2 ++ ". " ++ firstPiece e.1.message) :: laterPieces e.1.message).filter
            isCommand)
        = (r.findings.zipIdx 1).flatMap fun e => (laterPieces e.1.message).filter isCommand :=
          List.flatMap_congr fun e _ => hmessages e
      _ = ((r.findings.zipIdx 1).map Prod.fst).flatMap fun f =>
            (laterPieces f.message).filter isCommand := by
          rw [List.flatMap_map]
      _ = r.findings.flatMap fun f => (laterPieces f.message).filter isCommand := by
          rw [List.zipIdx_map_fst]

/-! ## The texts in the messages -/

/-- The texts from outside that messages are made of hold no line feed. -/
structure SingleLined (doc : Document) (abbreviations oversized : Dictionary String) : Prop where
  name : ∀ r ∈ doc, '\n' ∉ r.name.toList
  type : ∀ r ∈ doc, '\n' ∉ r.type.toList
  abbreviation : ∀ e ∈ abbreviations.entries, '\n' ∉ e.1.toList
  fullTerm : ∀ e ∈ abbreviations.entries, '\n' ∉ e.2.toList
  recommendation : ∀ e ∈ oversized.entries, '\n' ∉ e.2.toList

theorem SingleLined.lineFeed_not_mem_message {doc : Document} {abbreviations : Dictionary String}
    {policy : Policy} (h : SingleLined doc abbreviations policy.oversized) {f : Finding}
    (hf : f ∈ findings doc abbreviations policy) : '\n' ∉ f.message.toList := by
  obtain ⟨c, index, r, -, hr, hf⟩ := mem_findings_iff.mp hf
  have hmem := List.mem_of_getElem? hr
  obtain ⟨site, hmakes⟩ := Check.exists_makes hf
  cases hmakes with
  | naming he => simp [Naming.finding, h.name r hmem, h.abbreviation _ he, h.fullTerm _ he]
  | security hrule hv =>
      rcases Security.eq_of_mem_violations (List.mem_of_find?_eq_some hrule) hv with
        rfl | rfl | rfl
      · exact show '\n' ∉ "Storage account should enforce HTTPS".toList by decide
      · exact show '\n' ∉ "Storage account blob encryption not enabled".toList by decide
      · exact show '\n' ∉ "SQL Server has public network access enabled".toList by decide
  | cost _ he => simp [Cost.finding, h.type r hmem, h.recommendation _ he]

/-! ## The run -/

namespace CommandLine

/-- What can be read of a file that need not exist. -/
def sideFile (files : FileTree) (path : String) : SideFile :=
  match files.readText path with
  | .ok text => .ok (some text)
  | .error .notFound => .ok none
  | .error cause => .error (.read path cause)

theorem readOptional_apply (path : String) (s : Machine) :
    readOptional Machine.host path s = (sideFile s.files path, s) := by
  have hread : Machine.host.readText path s = (s.files.readText path, s) := rfl
  rw [readOptional, bind_apply, hread, sideFile]
  cases s.files.readText path with
  | ok text => rfl
  | error cause => cases cause <;> rfl

variable (options : CheckOptions) (frontEnd : FrontEnd) (s : Machine)

/-- What the evaluation is given. -/
def inputs : Inputs (StateM Machine) where
  template := options.template
  compiler := frontEnd.command.compiler Machine.host
  config := sideFile s.files options.config
  abbreviations := sideFile s.files options.abbreviations
  profile := options.profile

/-- The machine once the first line is printed. -/
def announced : Machine :=
  { s with stdout := s.stdout ++ ("Compiling " ++ options.template ++ "...\n") }

/-- How the evaluation ends, and on which machine. -/
def judged : Outcome × Machine :=
  runCheck Machine.host (inputs options frontEnd s) (announced options s)

variable {options frontEnd s} {report : Report}

theorem evaluated_machine :
    evaluated Machine.host options frontEnd s = judged options frontEnd s := by
  rw [evaluated, readOptional_apply, readOptional_apply]
  rfl

/-- A report that could be put out has been printed, and its annotations
after it; nothing is printed about the files. -/
theorem stdout_deliver {cap : Nat} (hcap : options.annotations = some cap)
    (hdelivered : (deliver Machine.host options report s).1 = .ok ()) :
    (deliver Machine.host options report s).2.stdout =
      s.stdout ++ report.toText ++ printed (report.annotationLines (some cap)) := by
  have hdelivers := delivers Machine.host options report s
  generalize deliver Machine.host options report s = result at hdelivered hdelivers ⊢
  cases hdelivers with
  | jsonUnsaved => cases hdelivered
  | markdownUnsaved => cases hdelivered
  | complete hjson hmarkdown =>
      obtain ⟨_, rfl⟩ := Machine.exists_eq_of_puts hjson
      obtain ⟨_, rfl⟩ := Machine.exists_eq_of_puts hmarkdown
      rw [annotated, hcap]
      rfl

theorem deliver_eq_ok (hjson : options.reportOut = none)
    (hmarkdown : options.markdownOut = none) :
    (deliver Machine.host options report s).1 = .ok () := by
  rw [deliver_eq_ok_iff, hjson, hmarkdown]
  exact ⟨_, _, .unasked, .unasked⟩

/-- A run of `check` that is carried out to its end.  The arguments are
understood, everything is there that the evaluation needs, and the files
that are asked for, if any, can be written. -/
structure Completes (arguments : List String) (s : Machine) (options : CheckOptions)
    (frontEnd : FrontEnd) (text : String) (doc : Document) (config : Config) (policy : Policy)
    (abbreviations : Dictionary String) : Prop where
  asked : Request.ofArguments? arguments = some (.check options)
  known : FrontEnd.ofName? options.compiler = some frontEnd
  prepared : Prepared Machine.host (inputs options frontEnd s) (announced options s) text doc
    config policy abbreviations
  delivered : ∀ report, (judged options frontEnd s).1 = .ofReport report →
    (deliver Machine.host options report (judged options frontEnd s).2).1 = .ok ()

variable {arguments : List String} {text : String} {doc : Document} {config : Config}
  {policy : Policy} {abbreviations : Dictionary String} {cap : Nat}

/-- A compiler prints to the gate, not to the standard output of the gate. -/
theorem stdout_judged : (judged options frontEnd s).2.stdout = (announced options s).stdout := by
  rw [← evaluated_machine]
  exact (Machine.onlyRan_of_queries (queries_evaluated Machine.host options frontEnd s)).stdout

/-- Such a run ends in a report, and has printed the first line, what is
meant as the lines of the report, and the annotations. -/
theorem Completes.stdout
    (h : Completes arguments s options frontEnd text doc config policy abbreviations)
    (hcap : options.annotations = some cap) :
    ∃ startedAt finishedAt, ∃ report : Report,
      report = (evaluate doc abbreviations policy).report options.template startedAt finishedAt ∧
      (judged options frontEnd s).1 = .ofReport report ∧
      (run Machine.host arguments s).2.stdout = s.stdout ++
        printed (("Compiling " ++ options.template ++ "...") ::
          (report.items ++ report.annotationLines (some cap))) := by
  obtain ⟨startedAt, finishedAt, hjudged⟩ := runCheck_of_prepared h.prepared
  refine ⟨startedAt, finishedAt, _, rfl, hjudged, ?_⟩
  replace hjudged : (judged options frontEnd s).1 = .ofReport
    ((evaluate doc abbreviations policy).report options.template startedAt finishedAt) := hjudged
  generalize (evaluate doc abbreviations policy).report options.template startedAt finishedAt =
    report at hjudged ⊢
  have hdelivered := h.delivered report hjudged
  have hreport : (judged options frontEnd s).1.report? = some report := by
    rw [hjudged, Outcome.report?_ofReport]
  rw [← evaluated_machine] at hreport hdelivered
  have hcheck := check_of_delivered h.known hreport (Prod.ext hdelivered rfl)
  rw [run, h.asked]
  show (check Machine.host options s).2.stdout = _
  rw [hcheck, stdout_deliver hcap hdelivered, evaluated_machine, stdout_judged, announced,
    Report.toText_eq_printed, ← List.singleton_append, printed_append, printed_append]
  simp [printed, String.join_cons, String.append_assoc]

/-- The lines of such a run: each annotation is one, and a command; of the
others only those behind a line feed in a message can be commands. -/
theorem Completes.lines_stdout
    (h : Completes arguments s options frontEnd text doc config policy abbreviations)
    (hcap : options.annotations = some cap) (htemplate : '\n' ∉ options.template.toList)
    (hfresh : s.stdout = "") :
    ∃ startedAt finishedAt, ∃ report : Report,
      report = (evaluate doc abbreviations policy).report options.template startedAt finishedAt ∧
      lines (run Machine.host arguments s).2.stdout =
        ("Compiling " ++ options.template ++ "...") ::
          (lines report.toText ++ report.annotationLines (some cap)) ∧
      commandLines (run Machine.host arguments s).2.stdout =
        report.forged ++ report.annotationLines (some cap) := by
  obtain ⟨startedAt, finishedAt, report, hreport, -, hstdout⟩ := h.stdout hcap
  obtain ⟨hpieces, hcommands⟩ := annotationLines_printed report (some cap)
  have hfirst : '\n' ∉ ("Compiling " ++ options.template ++ "...").toList := by
    simp [htemplate]
  have hlines : lines (run Machine.host arguments s).2.stdout =
      ("Compiling " ++ options.template ++ "...") ::
        (lines report.toText ++ report.annotationLines (some cap)) := by
    rw [hstdout, hfresh, String.empty_append, lines_printed, List.flatMap_cons,
      List.flatMap_append, pieces_eq_singleton hfirst, hpieces, Report.toText_eq_printed,
      lines_printed]
    rfl
  have hcompiling : isCommand ("Compiling " ++ options.template ++ "...") = false := by
    rw [String.append_assoc]
    exact isCommand_append_eq_false (c := 'C') rfl (by decide) _
  refine ⟨startedAt, finishedAt, report, hreport, hlines, ?_⟩
  rw [commandLines, hlines, List.filter_cons_of_neg (Bool.not_eq_true _ ▸ hcompiling),
    List.filter_append, ← commandLines, commandLines_toText, hcommands]

end CommandLine

/-! ## Runs that find an oversized virtual machine -/

open CommandLine

/-- A name that is a path, and leads to an entry of the working directory. -/
structure FileTree.IsName (name : String) : Prop where
  valid : FileTree.pathFault? name = none
  start : FileTree.startOf name = .inside []
  parts : Path.parts name = [name]
  speaks : Path.isIdle name = false
  short : ¬ FileTree.maxNameBytes < name.utf8ByteSize
  inside : name ≠ ".."

theorem FileTree.step_name {name : String} (h : FileTree.IsName name) (t : FileTree) :
    t.step (.inside []) name = .ok (.inside [name]) := by
  show (if Path.isIdle name then _ else if FileTree.maxNameBytes < name.utf8ByteSize then _
    else if name = ".." then _ else _) = _
  rw [h.speaks, if_neg Bool.false_ne_true, if_neg h.short, if_neg h.inside]
  rfl

theorem FileTree.lookup_name {t : FileTree} {name : String} (h : FileTree.IsName name) :
    t.lookup name = (FileTree.find? [name] t.entries).elim (.error .notFound) .ok := by
  have hresolve : t.resolve name = .ok (.inside [name]) := by
    rw [FileTree.resolve, FileTree.checkPath, h.valid, h.start, h.parts]
    show t.step (.inside []) name >>= (fun place => .ok place) = _
    rw [FileTree.step_name h]
    rfl
  have hentry : t.entryAt? (.inside [name]) = FileTree.find? [name] t.entries := rfl
  rw [FileTree.lookup, hresolve]
  dsimp only [bind, Except.bind]
  rw [hentry]
  cases FileTree.find? [name] t.entries <;> rfl

theorem FileTree.write_name {t : FileTree} {name : String} (h : FileTree.IsName name)
    (hslash : name.endsWith "/" = false) (hfree : FileTree.find? [name] t.entries = none)
    (bytes : List UInt8) : t.write name bytes = .ok (t.put [name] (.file bytes)) := by
  have hparts : Path.parts (FileTree.trimSlashes name) = [name] := by
    rw [FileTree.trimSlashes_eq_self hslash, h.parts]
  have hcheck : FileTree.checkPath name = .ok () := by
    rw [FileTree.checkPath, h.valid]
    rfl
  refine Json.bind_eq_ok_iff.mpr ⟨(), hcheck, Json.bind_eq_ok_iff.mpr ⟨.inside [], ?_, ?_⟩⟩
  · rw [h.start, hparts]
    rfl
  · rw [hslash, if_neg Bool.false_ne_true, hparts]
    refine Json.bind_eq_ok_iff.mpr ⟨.inside [name], FileTree.step_name h t, ?_⟩
    have hentry : t.entryAt? (.inside [name]) = none := hfree
    rw [hentry]

/-- A machine with a compiled template. -/
def Machine.withCompiled (root : Value) : Machine :=
  .start ⟨[(["main.json"], .file (encode root.compact))]⟩ fun _ => none

/-- The arguments that ask for annotations of it, and what they ask for. -/
def annotatingArguments (cap : String) : List String :=
  ["check", "main.json", "--annotations", "--max-annotations", cap]

def annotating (cap : Nat) : CheckOptions :=
  ⟨"main.json", "abbreviations.json", "armguard.toml", none, "az", none, none, some cap⟩

theorem isName_main : FileTree.IsName "main.json" := by
  constructor <;> decide +kernel

theorem isName_config : FileTree.IsName "armguard.toml" := by
  constructor <;> decide +kernel

theorem isName_abbreviations : FileTree.IsName "abbreviations.json" := by
  constructor <;> decide +kernel

theorem sideFile_withCompiled (root : Value) {path : String} (hname : FileTree.IsName path)
    (hpath : path ≠ "main.json") :
    sideFile (Machine.withCompiled root).files path = .ok none := by
  have hfind : FileTree.find? [path] (Machine.withCompiled root).files.entries = none :=
    if_neg fun h => hpath (List.singleton_inj.mp h.symm)
  have hread : (Machine.withCompiled root).files.readText path = .error .notFound := by
    rw [FileTree.readText, FileTree.lookup_name hname, hfind]
    rfl
  rw [sideFile, hread]

theorem compileTemplate_withCompiled (root : Value) (compiler : Compiler (StateM Machine))
    {s : Machine} (hs : s.files = (Machine.withCompiled root).files) :
    (compileTemplate Machine.host compiler "main.json" s).1 = .ok root.compact := by
  have hlookup : s.files.lookup "main.json" = .ok (.file (encode root.compact)) := by
    rw [hs, FileTree.lookup_name isName_main]
    rfl
  have hfile : s.files.isFile "main.json" = true := by
    rw [FileTree.isFile, hlookup]
  have hread : s.files.readText "main.json" = .ok root.compact :=
    FileTree.readText_of_lookup hlookup
  have hname : Path.extension? "main.json" = some "json" := by decide +kernel
  rw [compileTemplate, bind_apply]
  show ((if s.files.isFile "main.json" = true then _ else _ : StateM Machine _) s).1 = _
  have hhost : Machine.host.readText "main.json" s = (.ok root.compact, s) := by
    show (s.files.readText "main.json", s) = _
    rw [hread]
  rw [if_pos hfile, if_pos hname, bind_apply, hhost]
  rfl

/-- What a template is judged by if there is no configuration. -/
def defaultPolicy : Policy := ⟨"strict", ⟨true, true, true⟩, defaultOversized⟩

/-- The evaluation of it has what it needs, as long as the side files are missing. -/
theorem prepared_withCompiled {root : Value} {doc : Document} {options : CheckOptions}
    (hroot : root.Writable maxDepth) (hdoc : Document.ofValue root = .ok doc)
    (htemplate : options.template = "main.json") (hconfig : options.config = "armguard.toml")
    (habbreviations : options.abbreviations = "abbreviations.json")
    (hprofile : options.profile = none) (frontEnd : FrontEnd) :
    Prepared Machine.host (inputs options frontEnd (.withCompiled root))
      (announced options (.withCompiled root)) root.compact doc .default defaultPolicy .empty where
  compiled := by
    show (compileTemplate Machine.host _ options.template _).1 = _
    rw [htemplate]
    exact compileTemplate_withCompiled root _ rfl
  parsed := by
    rw [Document.parse, parse_compact hroot]
    exact hdoc
  configured := by
    show loadConfig (sideFile _ options.config) = _
    rw [hconfig, sideFile_withCompiled root isName_config (by decide)]
    rfl
  resolved := by
    show Config.default.resolve options.profile = _
    rw [hprofile]
    rfl
  abbreviated := by
    show loadAbbreviations (sideFile _ options.abbreviations) = _
    rw [habbreviations, sideFile_withCompiled root isName_abbreviations (by decide)]
    rfl

theorem completes_withCompiled {root : Value} {doc : Document} {arguments : List String}
    {cap : Nat} (hroot : root.Writable maxDepth) (hdoc : Document.ofValue root = .ok doc)
    (hasked : Request.ofArguments? arguments = some (.check (annotating cap))) :
    Completes arguments (.withCompiled root) (annotating cap) .az root.compact doc .default
      defaultPolicy .empty where
  asked := hasked
  known := show FrontEnd.ofName? "az" = some .az by decide
  delivered := fun report _ => deliver_eq_ok rfl rfl
  prepared := prepared_withCompiled hroot hdoc rfl rfl rfl rfl .az

/-- A template with a virtual machine of a type, whose SKU is oversized. -/
def oversizedRoot (type : String) : Value :=
  .object [("resources", .array [.object [("name", .string "vm"),
    ("sku", .object [("name", .string "P1V2")]), ("type", .string type)]])]

def oversizedDocument (type : String) : Document :=
  [⟨"vm", type, [], some [("name", .string "P1V2")]⟩]

theorem writable_oversizedRoot (type : String) : (oversizedRoot type).Writable maxDepth := by
  refine Value.writable_singleton (Value.writable_array (List.forall_mem_singleton.mpr ?_))
  refine Value.writable_object (by simp [Members.keys]) ?_
  simp only [List.forall_mem_cons]
  exact ⟨Value.writable_string _ _, Value.writable_singleton (Value.writable_string _ _),
    Value.writable_string _ _, by simp⟩

theorem completes_oversizedRoot (type : String) {arguments : List String} {cap : Nat}
    (hasked : Request.ofArguments? arguments = some (.check (annotating cap))) :
    Completes arguments (.withCompiled (oversizedRoot type)) (annotating cap) .az
      (oversizedRoot type).compact (oversizedDocument type) .default defaultPolicy .empty :=
  completes_withCompiled (writable_oversizedRoot type) rfl hasked

/-! ## The lines of a run -/

section Lines

variable {options : CheckOptions} {frontEnd : FrontEnd} {s : Machine} {arguments : List String}
  {text : String} {doc : Document} {config : Config} {policy : Policy}
  {abbreviations : Dictionary String} {cap : Nat}

theorem findings_report (template : String) (startedAt finishedAt : Timestamp) :
    ((evaluate doc abbreviations policy).report template startedAt finishedAt).findings =
      findings doc abbreviations policy := rfl

theorem annotationLines_report (template : String) (startedAt finishedAt : Timestamp) :
    ((evaluate doc abbreviations policy).report template startedAt finishedAt).annotationLines
        (some cap) =
      ((findings doc abbreviations policy).map fun f =>
        WorkflowCommand.line ⟨some template, f.checkId, f.annotationMessage⟩).take cap := by
  rw [Report.annotationLines, Report.annotations, List.map_map]
  rfl

/-- What a run prints, line by line: the first line, the report, and the
annotations, as many as were asked for.  A build service takes for commands
those in the messages and then exactly the annotations.  The report has one
line for its header and one for each message exactly if no message holds a
line feed; if the texts from outside hold none, both are as they should be. -/
theorem stdout_of_check
    (h : Completes arguments s options frontEnd text doc config policy abbreviations)
    (hcap : options.annotations = some cap) (htemplate : '\n' ∉ options.template.toList)
    (hfresh : s.stdout = "") :
    ∃ startedAt finishedAt, ∃ report : Report,
      report = (evaluate doc abbreviations policy).report options.template startedAt finishedAt ∧
      lines (run Machine.host arguments s).2.stdout =
        ("Compiling " ++ options.template ++ "...") ::
          (lines report.toText ++ report.annotationLines (some cap)) ∧
      commandLines (run Machine.host arguments s).2.stdout =
        report.forged ++ report.annotationLines (some cap) ∧
      (lines report.toText = report.items ↔ ∀ f ∈ report.findings, '\n' ∉ f.message.toList) ∧
      (SingleLined doc abbreviations policy.oversized →
        report.forged = [] ∧ lines report.toText = report.items) := by
  obtain ⟨startedAt, finishedAt, report, hreport, hlines, hcommands⟩ :=
    h.lines_stdout hcap htemplate hfresh
  refine ⟨startedAt, finishedAt, report, hreport, hlines, hcommands,
    report.lines_toText_eq_items_iff, fun hsingle => ?_⟩
  have hmessages : ∀ f ∈ report.findings, '\n' ∉ f.message.toList := by
    intro f hf
    rw [hreport] at hf
    exact hsingle.lineFeed_not_mem_message hf
  refine ⟨List.flatMap_eq_nil_iff.mpr fun f hf => ?_,
    report.lines_toText_eq_items_iff.mpr hmessages⟩
  rw [laterPieces_eq_nil_iff.mpr (hmessages f hf)]
  rfl

/-- Of a type without a line feed, a virtual machine is reported by one line
and one annotation. -/
theorem stdout_of_check_oversized :
    Completes (annotatingArguments "1")
        (.withCompiled (oversizedRoot "Microsoft.Compute/virtualMachines")) (annotating 1) .az
        (oversizedRoot "Microsoft.Compute/virtualMachines").compact
        (oversizedDocument "Microsoft.Compute/virtualMachines") .default defaultPolicy .empty ∧
      commandLines (run Machine.host (annotatingArguments "1")
        (.withCompiled (oversizedRoot "Microsoft.Compute/virtualMachines"))).2.stdout =
      ["::error file=main.json,title=cost.oversized_sku::[oversized_sku] Resource " ++
        "Microsoft.Compute/virtualMachines: Consider P1V1 for non-production app service plans " ++
        "(Microsoft.Compute/virtualMachines 'vm')"] := by
  have hcompletes := completes_oversizedRoot "Microsoft.Compute/virtualMachines"
    (show Request.ofArguments? (annotatingArguments "1") = some (.check (annotating 1)) by
      decide +kernel)
  refine ⟨hcompletes, ?_⟩
  obtain ⟨_, _, report, hreport, -, hcommands, -, hsingle⟩ :=
    stdout_of_check hcompletes rfl (by decide) rfl
  have hlined : SingleLined (oversizedDocument "Microsoft.Compute/virtualMachines") .empty
      defaultPolicy.oversized := by
    constructor <;> decide +kernel
  rw [hcommands, (hsingle hlined).1, List.nil_append, hreport, annotationLines_report]
  decide +kernel

/-- Of a type that holds one, what comes behind it is a command, though no
annotations are asked for. -/
theorem command_forged_by_type :
    ∃ report : Report, Completes (annotatingArguments "0")
        (.withCompiled (oversizedRoot "\n::error::forged")) (annotating 0) .az
        (oversizedRoot "\n::error::forged").compact (oversizedDocument "\n::error::forged")
        .default defaultPolicy .empty ∧
      report.findings =
        (evaluate (oversizedDocument "\n::error::forged") .empty defaultPolicy).findings ∧
      report.annotationLines (some 0) = [] ∧
      commandLines (run Machine.host (annotatingArguments "0")
          (.withCompiled (oversizedRoot "\n::error::forged"))).2.stdout =
        ["::error::forged: Consider P1V1 for non-production app service plans"] ∧
      lines report.toText ≠ report.items := by
  have hcompletes := completes_oversizedRoot "\n::error::forged"
    (show Request.ofArguments? (annotatingArguments "0") = some (.check (annotating 0)) by
      decide +kernel)
  obtain ⟨_, _, report, hreport, -, hcommands⟩ :=
    hcompletes.lines_stdout rfl (by decide) rfl
  have hmessage : report.findings.map (·.message) =
      ["Resource \n::error::forged: Consider P1V1 for non-production app service plans"] := by
    rw [hreport, findings_report]
    decide +kernel
  have hforged : report.forged = (report.findings.map (·.message)).flatMap fun message =>
      (laterPieces message).filter isCommand := by
    rw [Report.forged, List.flatMap_map]
  have hnone : report.annotationLines (some 0) = [] := rfl
  refine ⟨report, hcompletes, by rw [hreport]; rfl, hnone, ?_, ?_⟩
  · rw [hcommands, hnone, List.append_nil, hforged, hmessage]
    decide +kernel
  · intro hitems
    have hlined := report.lines_toText_eq_items_iff.mp hitems
    have hmem : "Resource \n::error::forged: Consider P1V1 for non-production app service plans" ∈
        report.findings.map (·.message) := hmessage ▸ List.mem_singleton_self _
    obtain ⟨f, hf, hfmessage⟩ := List.mem_map.mp hmem
    exact hlined f hf (hfmessage ▸ by decide)

end Lines

end TemplateGate
