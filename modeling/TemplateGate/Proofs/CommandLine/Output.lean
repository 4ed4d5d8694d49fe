/-
# `Proofs.CommandLine.Output` — putting out a report

A report is printed, saved as JSON, saved as a document, and annotated.
Each of these stands behind the one before and is not begun if that fails,
so there are three ways in which a report is put out (`Delivers`).

A file is saved in two operations of the host: the directory that its path
names is made, if it names one, and the text is written.  Which of them
fails is all that a failure says (`Host.Writes`).  What the host does in
an operation that fails is left to it, and so is the question when one
does: there may be no room on a disk, or no permission.
-/
import TemplateGate.CommandLine.Run
import TemplateGate.Proofs.Gate
import TemplateGate.Proofs.Machine.Files
import TemplateGate.Proofs.Text.Lines

namespace TemplateGate

open Text

variable {σ : Type} {host : Host (StateM σ)} {path text : String} {s s' : σ}

/-! ## Files -/

/-- The directory that a path names, if it names one, is made where it is missing. -/
inductive Host.Readies (host : Host (StateM σ)) (path : String) (s : σ) : σ → Prop
  | needless : Path.parent? path = none → Readies host path s s
  | made {parent : String} {s' : σ} : Path.parent? path = some parent →
      host.createDirectories parent s = (.ok (), s') → Readies host path s s'

/-- How an attempt to write a file ends; one that fails has its causes. -/
inductive Host.Writes (host : Host (StateM σ)) (path text : String) (s : σ) :
    Except (List String) Unit × σ → Prop
  | unmade {parent : String} {e : SystemError} {s' : σ} : Path.parent? path = some parent →
      host.createDirectories parent s = (.error e, s') →
      Writes host path text s (.error ["create directory: " ++ parent, e.message], s')
  | unwritten {e : SystemError} {s₁ s' : σ} : host.Readies path s s₁ →
      host.writeText path text s₁ = (.error e, s') →
      Writes host path text s (.error ["write file: " ++ path, e.message], s')
  | written {s₁ s' : σ} : host.Readies path s s₁ →
      host.writeText path text s₁ = (.ok (), s') → Writes host path text s (.ok (), s')

/-- How an attempt to write a file ends that may not be asked for. -/
inductive Host.Puts (host : Host (StateM σ)) : Option String → String → σ →
    Except (List String) Unit × σ → Prop
  | unasked {text : String} {s : σ} : Puts host none text s (.ok (), s)
  | asked {path text : String} {s : σ} {result : Except (List String) Unit × σ} :
      host.Writes path text s result → Puts host (some path) text s result

namespace CommandLine

theorem makeParent_of_readies (h : host.Readies path s s') :
    makeParent host path s = (.ok (), s') := by
  cases h with
  | needless hparent =>
      rw [makeParent, hparent]
      rfl
  | @made parent _ hparent hmade =>
      rw [makeParent, hparent]
      show (host.createDirectories parent >>= _) s = _
      rw [bind_apply, hmade]
      rfl

theorem writeFile_of_writes {result : Except (List String) Unit × σ}
    (h : host.Writes path text s result) : writeFile host path text s = result := by
  cases h with
  | @unmade parent e s' hparent hmade =>
      have hunmade : makeParent host path s =
          (.error ["create directory: " ++ parent, e.message], s') := by
        rw [makeParent, hparent]
        show (host.createDirectories parent >>= _) s = _
        rw [bind_apply, hmade]
        rfl
      rw [writeFile, bind_apply, hunmade]
      rfl
  | unwritten hready hwrite =>
      rw [writeFile, bind_apply, makeParent_of_readies hready]
      show (host.writeText path text >>= _) _ = _
      rw [bind_apply, hwrite]
      rfl
  | written hready hwrite =>
      rw [writeFile, bind_apply, makeParent_of_readies hready]
      show (host.writeText path text >>= _) _ = _
      rw [bind_apply, hwrite]
      rfl

theorem exists_writes (host : Host (StateM σ)) (path text : String) (s : σ) :
    ∃ result, host.Writes path text s result := by
  have hready : ∀ {s₁}, host.Readies path s s₁ → ∃ result, host.Writes path text s result := by
    intro s₁ hready
    cases hwrite : host.writeText path text s₁ with
    | mk done s' =>
        cases done with
        | error e => exact ⟨_, .unwritten hready hwrite⟩
        | ok _ => exact ⟨_, .written hready hwrite⟩
  cases hparent : Path.parent? path with
  | none => exact hready (.needless hparent)
  | some parent =>
      cases hmade : host.createDirectories parent s with
      | mk done s' =>
          cases done with
          | error e => exact ⟨_, .unmade hparent hmade⟩
          | ok _ => exact hready (.made hparent hmade)

variable {asked : Option String} {result result' : Except (List String) Unit × σ}

theorem writeOutput_of_puts (heading : String) (h : host.Puts asked text s result) :
    writeOutput host heading asked text s =
      (result.1.mapError fun causes => ⟨heading, causes⟩, result.2) := by
  cases h with
  | unasked => rfl
  | asked hwrites =>
      rw [writeOutput, bind_apply, writeFile_of_writes hwrites]
      obtain ⟨done, s'⟩ := result
      cases done <;> rfl

theorem exists_puts (host : Host (StateM σ)) (asked : Option String) (text : String) (s : σ) :
    ∃ result, host.Puts asked text s result := by
  cases asked with
  | none => exact ⟨_, .unasked⟩
  | some path =>
      obtain ⟨result, hwrites⟩ := exists_writes host path text s
      exact ⟨result, .asked hwrites⟩

theorem puts_unique (h : host.Puts asked text s result) (h' : host.Puts asked text s result') :
    result = result' := by
  cases h with
  | unasked =>
      cases h'
      rfl
  | asked hwrites =>
      cases h' with
      | asked hwrites' => rw [← writeFile_of_writes hwrites, writeFile_of_writes hwrites']

/-! ## A report -/

/-- The state once the annotations are printed, if any are asked for. -/
def annotated (host : Host (StateM σ)) (options : CheckOptions) (report : Report) (s : σ) : σ :=
  options.annotations.elim s fun cap =>
    (host.print (printed (report.annotationLines (some cap))) s).2

/-- How putting out a report ends, and what it leads to.  The report is
printed in any case. -/
inductive Delivers (host : Host (StateM σ)) (options : CheckOptions) (report : Report) (s : σ) :
    Except Complaint Unit × σ → Prop
  | jsonUnsaved {causes : List String} {s₁ : σ} :
      host.Puts options.reportOut report.toJson (host.print report.toText s).2
        (.error causes, s₁) →
      Delivers host options report s (.error ⟨"write report json", causes⟩, s₁)
  | markdownUnsaved {causes : List String} {s₁ s₂ : σ} :
      host.Puts options.reportOut report.toJson (host.print report.toText s).2 (.ok (), s₁) →
      host.Puts options.markdownOut report.toMarkdown s₁ (.error causes, s₂) →
      Delivers host options report s (.error ⟨"write markdown", causes⟩, s₂)
  | complete {s₁ s₂ : σ} :
      host.Puts options.reportOut report.toJson (host.print report.toText s).2 (.ok (), s₁) →
      host.Puts options.markdownOut report.toMarkdown s₁ (.ok (), s₂) →
      Delivers host options report s (.ok (), annotated host options report s₂)

theorem delivers (host : Host (StateM σ)) (options : CheckOptions) (report : Report) (s : σ) :
    Delivers host options report s (deliver host options report s) := by
  rw [deliver, bind_apply]
  obtain ⟨⟨json, s₁⟩, hjson⟩ :=
    exists_puts host options.reportOut report.toJson (host.print report.toText s).2
  rw [bind_apply, writeOutput_of_puts "write report json" hjson]
  cases json with
  | error causes => exact .jsonUnsaved hjson
  | ok _ =>
      show Delivers host options report s
        ((writeOutput host "write markdown" options.markdownOut report.toMarkdown >>= _) s₁)
      obtain ⟨⟨markdown, s₂⟩, hmarkdown⟩ :=
        exists_puts host options.markdownOut report.toMarkdown s₁
      rw [bind_apply, writeOutput_of_puts "write markdown" hmarkdown]
      cases markdown with
      | error causes => exact .markdownUnsaved hjson hmarkdown
      | ok _ =>
          have hcomplete := Delivers.complete hjson hmarkdown
          rw [annotated] at hcomplete
          cases hcap : options.annotations with
          | none =>
              rw [hcap] at hcomplete
              exact hcomplete
          | some cap =>
              rw [hcap] at hcomplete
              exact hcomplete

/-- A report is put out to the end exactly if both files are saved. -/
theorem deliver_eq_ok_iff {options : CheckOptions} {report : Report} :
    (deliver host options report s).1 = .ok () ↔ ∃ s₁ s₂,
      host.Puts options.reportOut report.toJson (host.print report.toText s).2 (.ok (), s₁) ∧
        host.Puts options.markdownOut report.toMarkdown s₁ (.ok (), s₂) := by
  have hdelivers := delivers host options report s
  generalize deliver host options report s = result at hdelivers ⊢
  cases hdelivers with
  | jsonUnsaved hjson =>
      refine ⟨nofun, ?_⟩
      rintro ⟨s₁, _, hjson', _⟩
      cases puts_unique hjson hjson'
  | markdownUnsaved hjson hmarkdown =>
      refine ⟨nofun, ?_⟩
      rintro ⟨s₁, s₂, hjson', hmarkdown'⟩
      cases puts_unique hjson hjson'
      cases puts_unique hmarkdown hmarkdown'
  | complete hjson hmarkdown => exact ⟨fun _ => ⟨_, _, hjson, hmarkdown⟩, fun _ => rfl⟩

end CommandLine

/-! ## On a machine -/

namespace Machine

variable {s s' s₁ s₂ : Machine} {asked : Option String} {causes : List String}

theorem writeText_eq_ok (h : Machine.host.writeText path text s = (.ok (), s')) :
    ∃ files, s.files.write path (encode text) = .ok files ∧ s' = { s with files } := by
  change update (s.files.write path (encode text)) s = _ at h
  cases hwrite : s.files.write path (encode text) with
  | ok files =>
      rw [hwrite] at h
      cases h
      exact ⟨files, rfl, rfl⟩
  | error e =>
      rw [hwrite] at h
      cases h

theorem writeText_eq_error {e : SystemError}
    (h : Machine.host.writeText path text s = (.error e, s')) : s' = s := by
  change update (s.files.write path (encode text)) s = _ at h
  cases hwrite : s.files.write path (encode text) with
  | ok files =>
      rw [hwrite] at h
      cases h
  | error e =>
      rw [hwrite] at h
      cases h
      rfl

theorem puts_of_write {files : FileTree} (hparent : Path.parent? path = none)
    (hwrite : s.files.write path (encode text) = .ok files) :
    Machine.host.Puts (some path) text s (.ok (), { s with files }) := by
  refine .asked (.written (.needless hparent) ?_)
  show update (s.files.write path (encode text)) s = _
  rw [hwrite]
  rfl

theorem exists_gainsDirectories_of_readies (h : Machine.host.Readies path s s') :
    ∃ above, s.files.GainsDirectories above ∧ s' = { s with files := above } := by
  cases h with
  | needless => exact ⟨s.files, .refl s.files, rfl⟩
  | @made parent _ _ hmade =>
      obtain ⟨-, rfl⟩ := Prod.mk.inj hmade
      exact ⟨_, FileTree.gainsDirectories_makeDirectories s.files parent, rfl⟩

theorem gainsDirectories_of_puts_error (h : Machine.host.Puts asked text s (.error causes, s')) :
    ∃ above, s.files.GainsDirectories above ∧ s' = { s with files := above } := by
  cases h with
  | asked h =>
      cases h with
      | @unmade parent _ _ _ hmade =>
          obtain ⟨-, rfl⟩ := Prod.mk.inj hmade
          exact ⟨_, FileTree.gainsDirectories_makeDirectories s.files parent, rfl⟩
      | @unwritten _ s₁ _ hready hwrite =>
          obtain ⟨above, hgains, rfl⟩ := exists_gainsDirectories_of_readies hready
          exact ⟨above, hgains, writeText_eq_error hwrite⟩

theorem exists_write_of_puts (h : Machine.host.Puts (some path) text s (.ok (), s')) :
    ∃ above files, s.files.GainsDirectories above ∧
      above.write path (encode text) = .ok files ∧ s' = { s with files } := by
  cases h with
  | asked h =>
      cases h with
      | @written s₁ _ hready hwrite =>
          obtain ⟨above, hgains, rfl⟩ := exists_gainsDirectories_of_readies hready
          obtain ⟨files, hfiles, rfl⟩ := writeText_eq_ok hwrite
          exact ⟨above, files, hgains, hfiles, rfl⟩

/-- Whether a text could be saved or not, nothing but the files has changed. -/
theorem exists_eq_of_puts {result : Except (List String) Unit × Machine}
    (h : Machine.host.Puts asked text s result) : ∃ files, result.2 = { s with files } := by
  obtain ⟨done, s'⟩ := result
  cases done with
  | error causes =>
      obtain ⟨above, -, heq⟩ := gainsDirectories_of_puts_error h
      exact ⟨above, heq⟩
  | ok _ =>
      cases asked with
      | none =>
          cases h
          exact ⟨s.files, rfl⟩
      | some path =>
          obtain ⟨-, files, -, -, heq⟩ := exists_write_of_puts h
          exact ⟨files, heq⟩

theorem readText_of_puts (h : Machine.host.Puts (some path) text s (.ok (), s')) :
    s'.files.readText path = .ok text := by
  obtain ⟨above, files, -, hwrite, rfl⟩ := exists_write_of_puts h
  exact FileTree.readText_of_write hwrite

/-- What was saved first is there still behind a second attempt, unless both
paths lead to one place. -/
theorem readText_of_puts_of_puts {text' : String}
    (h : Machine.host.Puts (some path) text s (.ok (), s₁))
    (h' : Machine.host.Puts asked text' s₁ (.ok (), s₂)) :
    s₂.files.readText path = .ok text ∨
      ∃ path', asked = some path' ∧ s₂.files.resolve path = s₂.files.resolve path' := by
  obtain ⟨_, files, -, hwrite, rfl⟩ := exists_write_of_puts h
  cases asked with
  | none =>
      cases h'
      exact .inl (FileTree.readText_of_write hwrite)
  | some path' =>
      obtain ⟨_, files', hgains, hwrite', rfl⟩ := exists_write_of_puts h'
      exact (FileTree.readText_of_write_of_write hwrite hgains hwrite').imp_right
        fun hplace => ⟨path', rfl, hplace⟩

end Machine

end TemplateGate
