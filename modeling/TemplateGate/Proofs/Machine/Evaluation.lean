/-
# `Proofs.Machine.Evaluation` — what an evaluation does on its host

An evaluation asks its host four things: whether there is a file, what is
in one, what time it is, and to run the command of the compiler.  Each is
one `Query`, and an evaluation leads from state to state by queries and by
nothing else (`OnlyQueries.runCheck`), whatever the host makes of them.

On a machine the first three leave everything but the clock alone, so what
is left of an evaluation is that the command ran some number of times and
the files are what it made of them, `Machine.OnlyRan`.  A compiler may do
anything to them.
-/
import Mathlib.Logic.Function.Iterate
import Mathlib.Logic.Relation
import TemplateGate.Proofs.Gate

namespace TemplateGate

/-! ## On any host -/

section Host

variable {σ α β : Type} {host : Host (StateM σ)} {command : Command} {template : String}

/-- What an evaluation may ask of its host, one thing at a time.  Nothing is
written, and nothing is printed. -/
inductive Host.Query (host : Host (StateM σ)) (command : Command) (template : String) :
    σ → σ → Prop
  | isFile (path : String) (s : σ) : Query host command template s (host.isFile path s).2
  | readText (path : String) (s : σ) : Query host command template s (host.readText path s).2
  | now (s : σ) : Query host command template s (host.now s).2
  | run (s : σ) : Query host command template s
      (host.run command.program (command.argumentsFor template) s).2

/-- Any number of queries, one after the other. -/
def Host.Queries (host : Host (StateM σ)) (command : Command) (template : String) : σ → σ → Prop :=
  Relation.ReflTransGen (host.Query command template)

/-- A transition that does nothing beyond queries. -/
def Host.OnlyQueries (host : Host (StateM σ)) (command : Command) (template : String)
    (x : StateM σ α) : Prop :=
  ∀ s, host.Queries command template s (x s).2

namespace Host.OnlyQueries

theorem pure (a : α) : host.OnlyQueries command template (Pure.pure a : StateM σ α) :=
  fun _ => .refl

theorem of_query {x : StateM σ α} (h : ∀ s, host.Query command template s (x s).2) :
    host.OnlyQueries command template x :=
  fun s => .single (h s)

theorem bind {x : StateM σ α} {f : α → StateM σ β} (hx : host.OnlyQueries command template x)
    (hf : ∀ a, host.OnlyQueries command template (f a)) :
    host.OnlyQueries command template (x >>= f) :=
  fun s => (hx s).trans (hf (x s).1 (x s).2)

theorem readOptional (path : String) :
    host.OnlyQueries command template (TemplateGate.readOptional host path) := by
  refine bind (of_query (.readText path)) fun text => ?_
  cases text with
  | ok text => exact pure _
  | error cause => cases cause <;> exact pure _

theorem compiler : host.OnlyQueries command template (command.compiler host template) := by
  refine bind (of_query .run) fun done => ?_
  cases done <;> exact pure _

theorem compileTemplate : host.OnlyQueries command template
    (TemplateGate.compileTemplate host (command.compiler host) template) := by
  refine bind (of_query (.isFile template)) fun found => ?_
  cases found with
  | false => exact pure _
  | true =>
      show host.OnlyQueries command template
        (if Path.extension? template = some "json" then _ else _ : StateM σ _)
      split
      · refine bind (of_query (.readText template)) fun text => ?_
        cases text <;> exact pure _
      · exact compiler

theorem loadDocument : host.OnlyQueries command template
    (TemplateGate.loadDocument host (command.compiler host) template) := by
  refine bind compileTemplate fun text => ?_
  cases text <;> exact pure _

theorem runCheck {inputs : Inputs (StateM σ)} (htemplate : inputs.template = template)
    (hcompiler : inputs.compiler = command.compiler host) :
    host.OnlyQueries command template (TemplateGate.runCheck host inputs) := by
  rw [TemplateGate.runCheck, htemplate, hcompiler]
  refine bind (of_query .now) fun startedAt => bind loadDocument fun doc => ?_
  cases doc with
  | error e => exact pure _
  | ok doc =>
      dsimp only
      cases loadPolicy inputs.config inputs.abbreviations inputs.profile with
      | error e => exact pure _
      | ok judge => exact bind (of_query .now) fun _ => pure _

end Host.OnlyQueries

end Host

/-! ## On a machine -/

namespace Machine

variable {program : String} {arguments : List String} {command : Command} {template : String}
  {s s' s₁ s₂ s₃ : Machine}

/-- The files that a program leaves behind; one that cannot be started leaves them alone. -/
def leftBehind (programs : String → Option Program) (program : String) (arguments : List String)
    (files : FileTree) : FileTree :=
  (programs program).elim files fun behaviour => (behaviour arguments files).2

theorem leftBehind_of_eq_none {programs : String → Option Program} (h : programs program = none)
    (files : FileTree) : leftBehind programs program arguments files = files := by
  rw [leftBehind, h]
  rfl

/-- All that happened on a machine is that a command ran, a number of times:
the files are what it made of them. -/
structure OnlyRan (program : String) (arguments : List String) (s s' : Machine) : Prop where
  stdout : s'.stdout = s.stdout
  stderr : s'.stderr = s.stderr
  programs : s'.programs = s.programs
  files : ∃ n, s'.runs = s.runs ++ List.replicate n (program, arguments) ∧
    s'.files = (leftBehind s.programs program arguments)^[n] s.files

theorem OnlyRan.refl (s : Machine) : OnlyRan program arguments s s :=
  ⟨rfl, rfl, rfl, 0, (List.append_nil _).symm, rfl⟩

theorem OnlyRan.trans (h : OnlyRan program arguments s₁ s₂) (h' : OnlyRan program arguments s₂ s₃) :
    OnlyRan program arguments s₁ s₃ := by
  obtain ⟨m, hruns, hfiles⟩ := h.files
  obtain ⟨n, hruns', hfiles'⟩ := h'.files
  refine ⟨h'.stdout.trans h.stdout, h'.stderr.trans h.stderr, h'.programs.trans h.programs,
    m + n, ?_, ?_⟩
  · rw [hruns', hruns, List.append_assoc, List.replicate_append_replicate]
  · rw [hfiles', h.programs, hfiles, Nat.add_comm, Function.iterate_add_apply]

/-- An error may as well be printed before the command runs. -/
theorem OnlyRan.printError (h : OnlyRan program arguments s s') (text : String) :
    OnlyRan program arguments { s with stderr := s.stderr ++ text }
      { s' with stderr := s'.stderr ++ text } where
  stdout := h.stdout
  stderr := congrArg (· ++ text) h.stderr
  programs := h.programs
  files := h.files

theorem onlyRan_run (program : String) (arguments : List String) (s : Machine) :
    OnlyRan program arguments s (run program arguments s).2 := by
  rw [run]
  split
  · exact .refl s
  · split
    · exact .refl s
    · rename_i behaviour hbehaviour
      split
      · exact .refl s
      · refine ⟨rfl, rfl, rfl, 1, rfl, ?_⟩
        rw [Function.iterate_one, leftBehind, hbehaviour]
        rfl

theorem onlyRan_of_query (h : Machine.host.Query command template s s') :
    OnlyRan command.program (command.argumentsFor template) s s' := by
  cases h with
  | isFile path => exact .refl s
  | readText path => exact .refl s
  | now => exact ⟨rfl, rfl, rfl, 0, (List.append_nil _).symm, rfl⟩
  | run => exact onlyRan_run _ _ s

theorem onlyRan_of_queries (h : Machine.host.Queries command template s s') :
    OnlyRan command.program (command.argumentsFor template) s s' := by
  induction h with
  | refl => exact .refl s
  | tail _ hquery ih => exact ih.trans (onlyRan_of_query hquery)

end Machine

end TemplateGate
