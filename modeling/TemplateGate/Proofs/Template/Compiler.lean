/-
# `Proofs.Template.Compiler` — where a compiled text comes from

A template is compiled in one of five ways, and `Host.Compiles` lists them
for any host: each case says what the host was asked, in which order, and
what it answered.  What a program leaves behind is judged by its status
first, so a program that fails yields no text, whatever it wrote
(`Completion.Yields`).  Where no program is asked for, the compiler does not
matter at all.

A machine can say more.  It stays as it is while it is only asked about its
files, and it keeps a list of the programs that ran: `Machine.Compiles` has
the same cases, with the bytes of the files and with that list.  Only in the
last case is there one more program on it.

What a program that failed wrote to its error stream is shown without the
white space around it (`Trims`).
-/
import TemplateGate.Proofs.Path
import TemplateGate.Proofs.Stages
import TemplateGate.Proofs.Text.Utf8

namespace TemplateGate

open Text

/-- What is made of a program that ran: its status decides, then its output. -/
inductive Completion.Yields (done : Completion) : Except TemplateError String → Prop
  | failed {code : Int} : done.status = .code code → code ≠ 0 →
      Yields done (.error (.compilerFailed (some code) (decodeLossy done.stderr)))
  | killed : done.status = .signal →
      Yields done (.error (.compilerFailed none (decodeLossy done.stderr)))
  | noText : done.status = .code 0 → (∀ text, encode text ≠ done.stdout) →
      Yields done (.error .nonUtf8Output)
  | text {text : String} : done.status = .code 0 → encode text = done.stdout →
      Yields done (.ok text)

/-- The arguments of a command for a template. -/
def Command.words (command : Command) (template : String) : List String :=
  match command.fileFlag with
  | some flag => command.arguments ++ [flag, template, "--stdout"]
  | none => command.arguments ++ [template, "--stdout"]

variable {σ : Type} {host : Host (StateM σ)} {command : Command} {template : String} {s : σ}

/-- The ways in which a host compiles a template, with the states it goes
through: it is asked whether there is a file, and then at most one thing more. -/
inductive Host.Compiles (host : Host (StateM σ)) (command : Command) (template : String) (s : σ) :
    Except TemplateError String → σ → Prop
  | missing {s₁ : σ} : host.isFile template s = (false, s₁) →
      Compiles host command template s (.error (.templateNotFound template)) s₁
  | read {s₁ s₂ : σ} {text : String} : host.isFile template s = (true, s₁) →
      Path.HasExtension template "json" → host.readText template s₁ = (.ok text, s₂) →
      Compiles host command template s (.ok text) s₂
  | unread {s₁ s₂ : σ} {cause : SystemError} : host.isFile template s = (true, s₁) →
      Path.HasExtension template "json" → host.readText template s₁ = (.error cause, s₂) →
      Compiles host command template s (.error (.read template cause)) s₂
  | idle {s₁ s₂ : σ} {cause : SystemError} : host.isFile template s = (true, s₁) →
      ¬ Path.HasExtension template "json" →
      host.run command.program (command.words template) s₁ = (.error cause, s₂) →
      Compiles host command template s (.error (.spawn command.program cause)) s₂
  | ran {s₁ s₂ : σ} {done : Completion} {result : Except TemplateError String} :
      host.isFile template s = (true, s₁) → ¬ Path.HasExtension template "json" →
      host.run command.program (command.words template) s₁ = (.ok done, s₂) →
      done.Yields result → Compiles host command template s result s₂

/-- The ways in which a machine compiles a template.  Only in the last one
does a program run, once, and only there do the files change. -/
inductive Machine.Compiles (command : Command) (template : String) (s : Machine) :
    Except TemplateError String → Machine → Prop
  | missing : (∀ bytes, s.files.lookup template ≠ .ok (.file bytes)) →
      Compiles command template s (.error (.templateNotFound template)) s
  | read {text : String} : s.files.lookup template = .ok (.file (encode text)) →
      Path.HasExtension template "json" → Compiles command template s (.ok text) s
  | unread {bytes : List UInt8} : s.files.lookup template = .ok (.file bytes) →
      Path.HasExtension template "json" → (∀ text, encode text ≠ bytes) →
      Compiles command template s (.error (.read template .notText)) s
  | idle {bytes : List UInt8} {cause : SystemError} :
      s.files.lookup template = .ok (.file bytes) → ¬ Path.HasExtension template "json" →
      Machine.run command.program (command.words template) s = (.error cause, s) →
      Compiles command template s (.error (.spawn command.program cause)) s
  | ran {bytes : List UInt8} {behaviour : Program} {done : Completion} {files : FileTree}
      {s' : Machine} {result : Except TemplateError String} :
      s.files.lookup template = .ok (.file bytes) → ¬ Path.HasExtension template "json" →
      Machine.run command.program (command.words template) s = (.ok done, s') →
      s.programs command.program = some behaviour →
      behaviour (command.words template) s.files = (done, files) →
      s' = { s with files, runs := s.runs ++ [(command.program, command.words template)] } →
      done.Yields result → Compiles command template s result s'

/-- A text without its margins: white space on either side is left out, and
nothing is left out of the middle. -/
structure Trims (text trimmed : String) : Prop where
  margins : ∃ left right, text = left ++ trimmed ++ right ∧ Blank left ∧ Blank right
  first : ∀ c ∈ trimmed.toList.head?, isBlank c = false
  last : ∀ c ∈ trimmed.toList.getLast?, isBlank c = false

/-- How a program that failed is reported: with its status, and with what it
had to say if that is anything. -/
inductive ShowsFailure (code : Option Int) (stderr : String) : String → Prop
  | silent : Blank stderr →
      ShowsFailure code stderr ("compiler exited with status " ++ code.elim "signal" signedNumeral)
  | spoken {complaint : String} : ¬ Blank stderr → Trims stderr complaint →
      ShowsFailure code stderr
        ("compiler exited with status " ++ code.elim "signal" signedNumeral ++ ": " ++ complaint)

/-- A template is compiled in the ways listed, on any host and on a machine. -/
structure Command.CompilesExactly (command : Command) (template : String) : Prop where
  onHost : ∀ {σ : Type} (host : Host (StateM σ)) (s : σ), host.Compiles command template s
    (compileTemplate host (command.compiler host) template s).1
    (compileTemplate host (command.compiler host) template s).2
  /-- No compiler makes a difference to a path that is no file or that ends in `.json`. -/
  bypass : ∀ {σ : Type} (host : Host (StateM σ)) (s : σ) (compiler compiler' : Compiler (StateM σ)),
    (host.isFile template s).1 = false ∨ Path.HasExtension template "json" →
      compileTemplate host compiler template s = compileTemplate host compiler' template s
  onMachine : ∀ s : Machine, Machine.Compiles command template s
    (compileTemplate Machine.host (command.compiler Machine.host) template s).1
    (compileTemplate Machine.host (command.compiler Machine.host) template s).2
  failure : ∀ code stderr,
    ShowsFailure code stderr (TemplateError.compilerFailed code stderr).display

/-! ## On any host -/

theorem Command.argumentsFor_eq_words (command : Command) (template : String) :
    command.argumentsFor template = command.words template := by
  rw [argumentsFor, words]
  cases command.fileFlag <;> simp

theorem Completion.yields_output (done : Completion) : done.Yields (Command.output done) := by
  obtain ⟨status, stdout, stderr⟩ := done
  rw [Command.output]
  cases status with
  | signal => exact .killed rfl
  | code value =>
      by_cases hzero : value = 0
      · subst hzero
        rw [if_pos (show ExitStatus.isSuccess (.code 0) = true from rfl)]
        cases hdecode : decode stdout with
        | some text => exact .text rfl (decode_eq_some_iff.mp hdecode)
        | none =>
            refine .noText rfl fun text htext => ?_
            rw [decode_eq_some_iff.mpr htext] at hdecode
            cases hdecode
      · rw [if_neg (by simpa [ExitStatus.isSuccess] using hzero)]
        exact .failed rfl hzero

theorem compileTemplate_of_not_isFile {compiler : Compiler (StateM σ)}
    (h : (host.isFile template s).1 = false) : compileTemplate host compiler template s =
      (.error (.templateNotFound template), (host.isFile template s).2) := by
  rw [compileTemplate, bind_apply, h]
  rfl

theorem compileTemplate_of_isFile {compiler : Compiler (StateM σ)}
    (h : (host.isFile template s).1 = true) : compileTemplate host compiler template s =
      (if Path.extension? template = some "json" then do
        match ← host.readText template with
        | .ok text => pure (.ok text)
        | .error cause => pure (.error (.read template cause))
      else compiler template : StateM σ _) (host.isFile template s).2 := by
  rw [compileTemplate, bind_apply, h]
  rfl

theorem Host.compiles_compileTemplate (host : Host (StateM σ)) (command : Command)
    (template : String) (s : σ) : host.Compiles command template s
      (compileTemplate host (command.compiler host) template s).1
      (compileTemplate host (command.compiler host) template s).2 := by
  cases hfile : (host.isFile template s).1 with
  | false =>
      rw [compileTemplate_of_not_isFile hfile]
      exact .missing (Prod.ext hfile rfl)
  | true =>
      rw [compileTemplate_of_isFile hfile]
      have hfile : host.isFile template s = (true, (host.isFile template s).2) := Prod.ext hfile rfl
      generalize (host.isFile template s).2 = s₁ at hfile ⊢
      split
      · rename_i hjson
        have hjson := Path.extension?_eq_some_iff.mp hjson
        rw [bind_apply]
        rcases hread : host.readText template s₁ with ⟨cause | text, s₂⟩
        · exact .unread hfile hjson hread
        · exact .read hfile hjson hread
      · rename_i hjson
        have hjson := mt Path.extension?_eq_some_iff.mpr hjson
        rw [Command.compiler, bind_apply, command.argumentsFor_eq_words]
        rcases hrun : host.run command.program (command.words template) s₁ with ⟨cause | done, s₂⟩
        · exact .idle hfile hjson hrun
        · exact .ran hfile hjson hrun done.yields_output

theorem compileTemplate_congr (compiler compiler' : Compiler (StateM σ))
    (h : (host.isFile template s).1 = false ∨ Path.HasExtension template "json") :
    compileTemplate host compiler template s = compileTemplate host compiler' template s := by
  cases hfile : (host.isFile template s).1 with
  | false => rw [compileTemplate_of_not_isFile hfile, compileTemplate_of_not_isFile hfile]
  | true =>
      have hjson : Path.extension? template = some "json" := by
        rw [hfile] at h
        exact Path.extension?_eq_some_iff.mpr (h.resolve_left Bool.noConfusion)
      rw [compileTemplate_of_isFile hfile, compileTemplate_of_isFile hfile, if_pos hjson,
        if_pos hjson]

/-! ## On a machine -/

theorem FileTree.isFile_iff {t : FileTree} {path : String} :
    t.isFile path = true ↔ ∃ bytes, t.lookup path = .ok (.file bytes) := by
  rw [isFile]
  split
  · rename_i bytes hlookup
    exact iff_of_true rfl ⟨bytes, hlookup⟩
  · rename_i hother
    refine iff_of_false Bool.false_ne_true ?_
    rintro ⟨bytes, hlookup⟩
    exact hother bytes hlookup

theorem FileTree.readText_eq {t : FileTree} {path : String} {bytes : List UInt8}
    (h : t.lookup path = .ok (.file bytes)) :
    t.readText path = (decode bytes).elim (.error SystemError.notText) .ok := by
  rw [readText, h]
  show (match decode bytes with
    | some text => Except.ok text
    | none => .error SystemError.notText) = _
  cases decode bytes <;> rfl

theorem FileTree.readText_eq_ok_iff {t : FileTree} {path text : String} {bytes : List UInt8}
    (h : t.lookup path = .ok (.file bytes)) : t.readText path = .ok text ↔ encode text = bytes := by
  rw [readText_eq h, ← decode_eq_some_iff]
  cases decode bytes <;> simp

theorem FileTree.readText_eq_error_iff {t : FileTree} {path : String} {bytes : List UInt8}
    {cause : SystemError} (h : t.lookup path = .ok (.file bytes)) :
    t.readText path = .error cause ↔ cause = .notText ∧ ∀ text, encode text ≠ bytes := by
  simp only [readText_eq h, ne_eq, ← decode_eq_some_iff]
  cases decode bytes <;> simp [eq_comm]

/-- A program that does not start changes nothing, and one that does is a
function of its arguments and the files. -/
theorem Machine.run_cases {program : String} {arguments : List String} {s s' : Machine} :
    (∀ {cause : SystemError}, run program arguments s = (.error cause, s') → s' = s) ∧
    ∀ {done : Completion}, run program arguments s = (.ok done, s') →
      ∃ behaviour files, s.programs program = some behaviour ∧
        behaviour arguments s.files = (done, files) ∧
        s' = { s with files, runs := s.runs ++ [(program, arguments)] } := by
  rw [run]
  split
  · exact ⟨by rintro _ ⟨⟩; rfl, nofun⟩
  · split
    · exact ⟨by rintro _ ⟨⟩; rfl, nofun⟩
    · rename_i behaviour hbehaviour
      split
      · exact ⟨by rintro _ ⟨⟩; rfl, nofun⟩
      · refine ⟨nofun, ?_⟩
        rintro done ⟨⟩
        exact ⟨behaviour, _, hbehaviour, rfl, rfl⟩

/-- A machine is a host whose files say what the host answers. -/
theorem Machine.Compiles.of_host {s s' : Machine} {result : Except TemplateError String}
    (h : Machine.host.Compiles command template s result s') :
    Machine.Compiles command template s result s' := by
  have hasked : ∀ {found : Bool} {s₁ : Machine}, Machine.host.isFile template s = (found, s₁) →
      s.files.isFile template = found ∧ s = s₁ := Prod.mk.inj
  have hanswered : ∀ {answer : Except SystemError String} {s₁ : Machine},
      Machine.host.readText template s = (answer, s₁) →
      s.files.readText template = answer ∧ s = s₁ := Prod.mk.inj
  cases h with
  | missing hfile =>
      obtain ⟨hfound, rfl⟩ := hasked hfile
      refine .missing fun bytes hlookup => ?_
      rw [FileTree.isFile_iff.mpr ⟨bytes, hlookup⟩] at hfound
      cases hfound
  | read hfile hjson hread =>
      obtain ⟨hfound, rfl⟩ := hasked hfile
      obtain ⟨hanswer, rfl⟩ := hanswered hread
      obtain ⟨bytes, hlookup⟩ := FileTree.isFile_iff.mp hfound
      obtain rfl := (FileTree.readText_eq_ok_iff hlookup).mp hanswer
      exact .read hlookup hjson
  | unread hfile hjson hread =>
      obtain ⟨hfound, rfl⟩ := hasked hfile
      obtain ⟨hanswer, rfl⟩ := hanswered hread
      obtain ⟨bytes, hlookup⟩ := FileTree.isFile_iff.mp hfound
      obtain ⟨rfl, htext⟩ := (FileTree.readText_eq_error_iff hlookup).mp hanswer
      exact .unread hlookup hjson htext
  | idle hfile hjson hrun =>
      obtain ⟨hfound, rfl⟩ := hasked hfile
      obtain ⟨bytes, hlookup⟩ := FileTree.isFile_iff.mp hfound
      obtain rfl := run_cases.1 hrun
      exact .idle hlookup hjson hrun
  | ran hfile hjson hrun hyields =>
      obtain ⟨hfound, rfl⟩ := hasked hfile
      obtain ⟨bytes, hlookup⟩ := FileTree.isFile_iff.mp hfound
      obtain ⟨behaviour, files, hbehaviour, hdone, hstate⟩ := run_cases.2 hrun
      exact .ran hlookup hjson hrun hbehaviour hdone hstate hyields

/-! ## How a failure is shown -/

theorem isBlank_of_mem_head?_dropWhile {cs : List Char} {c : Char}
    (h : c ∈ (cs.dropWhile isBlank).head?) : isBlank c = false := by
  have hhead := List.head?_dropWhile_not isBlank cs
  rw [Option.mem_def.mp h] at hhead
  exact hhead

theorem isBlank_of_mem_takeWhile {cs : List Char} :
    ∀ c ∈ cs.takeWhile isBlank, isBlank c = true :=
  List.all_eq_true.mp List.all_takeWhile

theorem exists_eq_dropBlankEnd_append (cs : List Char) :
    ∃ right, cs = dropBlankEnd cs ++ right ∧ ∀ c ∈ right, isBlank c = true := by
  refine ⟨(cs.reverse.takeWhile isBlank).reverse, ?_, ?_⟩
  · rw [dropBlankEnd, ← List.reverse_append, List.takeWhile_append_dropWhile, List.reverse_reverse]
  · simpa using isBlank_of_mem_takeWhile

theorem trims_trim (text : String) : Trims text (trim text) := by
  have hleft := List.takeWhile_append_dropWhile (p := isBlank) (l := text.toList)
  have hfirst := @isBlank_of_mem_head?_dropWhile text.toList
  have htrim : (trim text).toList = dropBlankEnd (text.toList.dropWhile isBlank) :=
    String.toList_ofList
  generalize text.toList.dropWhile isBlank = rest at *
  obtain ⟨right, hrest, hright⟩ := exists_eq_dropBlankEnd_append rest
  refine ⟨⟨.ofList (text.toList.takeWhile isBlank), .ofList right, ?_, ?_, ?_⟩, ?_, ?_⟩
  · refine String.toList_inj.mp ?_
    simp only [String.toList_append, String.toList_ofList, htrim]
    rw [List.append_assoc, ← hrest, hleft]
  · simpa [Blank] using isBlank_of_mem_takeWhile
  · simpa [Blank] using hright
  · intro c hc
    rw [htrim] at hc
    refine hfirst ?_
    rw [hrest, List.head?_append, Option.mem_def.mp hc, Option.some_or]
    rfl
  · intro c hc
    rw [htrim, dropBlankEnd, List.getLast?_reverse] at hc
    exact isBlank_of_mem_head?_dropWhile hc

theorem showsFailure_display (code : Option Int) (stderr : String) :
    ShowsFailure code stderr (TemplateError.compilerFailed code stderr).display := by
  show ShowsFailure code stderr (TemplateError.compilerMessage code stderr)
  rw [TemplateError.compilerMessage]
  split
  · rename_i hblank
    exact .silent (allBlank_iff.mp hblank)
  · rename_i hblank
    exact .spoken (mt allBlank_iff.mpr hblank) (trims_trim stderr)

/-- The text of a template comes from its file or from a program that ran
once and succeeded, and from nowhere else. -/
theorem Command.compiles_exactly (command : Command) (template : String) :
    command.CompilesExactly template where
  onHost := fun host s => host.compiles_compileTemplate command template s
  bypass := fun _ _ compiler compiler' => compileTemplate_congr compiler compiler'
  onMachine := fun s => .of_host (Machine.host.compiles_compileTemplate command template s)
  failure := showsFailure_display

end TemplateGate
