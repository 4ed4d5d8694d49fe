/-
# `Proofs.CommandLine.Course` — the course of a run of `check`

A run of `check` whose compiler is known begins with the evaluation, and
goes on by its outcome: a failure is said on the error stream, and a report
is put out (`Proofs.CommandLine.Output`).  `evaluated` is how the
evaluation ends and the state that it leads to, and with it each way to go
on is one equation, on any host.
-/
import TemplateGate.Proofs.CommandLine.Output
import TemplateGate.Proofs.Machine.Evaluation

namespace TemplateGate.CommandLine

variable {σ : Type} {host : Host (StateM σ)} {options : CheckOptions} {frontEnd : FrontEnd}
  {s s' : σ} {report : Report}

/-- The state once the first line is printed. -/
def greeted (host : Host (StateM σ)) (options : CheckOptions) (s : σ) : σ :=
  (host.print ("Compiling " ++ options.template ++ "...\n") s).2

/-- What the evaluation is given, with what could be read of the side files. -/
def given (host : Host (StateM σ)) (options : CheckOptions) (frontEnd : FrontEnd)
    (config abbreviations : SideFile) : Inputs (StateM σ) where
  template := options.template
  compiler := frontEnd.command.compiler host
  config
  abbreviations
  profile := options.profile

/-- How the evaluation ends, and the state that it leads to.  The side files
are read before it, whether they are there or not. -/
def evaluated (host : Host (StateM σ)) (options : CheckOptions) (frontEnd : FrontEnd) (s : σ) :
    Outcome × σ :=
  let config := readOptional host options.config (greeted host options s)
  let abbreviations := readOptional host options.abbreviations config.2
  runCheck host (given host options frontEnd config.1 abbreviations.1) abbreviations.2

/-- An evaluation has asked its host for this and that, and has run the
command of the compiler, but has written nothing and printed nothing. -/
theorem queries_evaluated (host : Host (StateM σ)) (options : CheckOptions) (frontEnd : FrontEnd)
    (s : σ) : host.Queries frontEnd.command options.template (greeted host options s)
      (evaluated host options frontEnd s).2 := by
  have hread : ∀ path, host.OnlyQueries frontEnd.command options.template
      (readOptional host path) := .readOptional
  have hcheck : ∀ config abbreviations, host.OnlyQueries frontEnd.command options.template
      (runCheck host (given host options frontEnd config abbreviations)) :=
    fun _ _ => .runCheck rfl rfl
  exact (hread options.config _).trans ((hread options.abbreviations _).trans (hcheck _ _ _))

/-- The text before the reason of a failure, which names the stage. -/
def stageHeading : Stage → String
  | .compile => "Compilation failed: "
  | .config => "Invalid configuration: "

theorem failureText_eq (stage : Stage) (reason : String) :
    failureText stage reason = stageHeading stage ++ reason ++ "\n" := by
  cases stage <;> rfl

theorem check_apply (hknown : FrontEnd.ofName? options.compiler = some frontEnd) :
    check host options s =
      (match (evaluated host options frontEnd s).1 with
      | .environmentFailure stage reason => do
          host.printError (failureText stage reason)
          pure (evaluated host options frontEnd s).1.exitCode
      | .clean report | .violations report => do
          match ← deliver host options report with
          | .ok () => pure (evaluated host options frontEnd s).1.exitCode
          | .error complaint => do
              host.printError complaint.toText
              pure 1 : StateM σ UInt32) (evaluated host options frontEnd s).2 := by
  rw [check, hknown]
  rfl

theorem check_of_unknown (h : FrontEnd.ofName? options.compiler = none) :
    check host options s = (1, (host.printError ("Error: unknown compiler: " ++ options.compiler ++
      " (expected az or bicep)\n") s).2) := by
  have htext : Complaint.toText
      ⟨"unknown compiler: " ++ options.compiler ++ " (expected az or bicep)", []⟩ =
      "Error: unknown compiler: " ++ options.compiler ++ " (expected az or bicep)\n" := by
    unfold Complaint.toText Complaint.causesText
    refine String.toList_inj.mp ?_
    simp only [String.toList_append]
    simp
  rw [check, h, ← htext]
  rfl

theorem check_of_failure {stage : Stage} {reason : String}
    (h : FrontEnd.ofName? options.compiler = some frontEnd)
    (hfailed : (evaluated host options frontEnd s).1 = .environmentFailure stage reason) :
    check host options s = (1, (host.printError (stageHeading stage ++ reason ++ "\n")
      (evaluated host options frontEnd s).2).2) := by
  rw [check_apply h, ← failureText_eq]
  generalize (evaluated host options frontEnd s).2 = s₁
  rw [hfailed]
  rfl

/-- What was evaluated is delivered, and a delivery that fails is complained about. -/
theorem check_of_evaluated (h : FrontEnd.ofName? options.compiler = some frontEnd)
    (hreport : (evaluated host options frontEnd s).1.report? = some report) :
    check host options s =
      match deliver host options report (evaluated host options frontEnd s).2 with
      | (.ok (), s') => ((evaluated host options frontEnd s).1.exitCode, s')
      | (.error complaint, s') => (1, (host.printError complaint.toText s').2) := by
  rw [check_apply h]
  generalize evaluated host options frontEnd s = evaluated at hreport ⊢
  obtain ⟨outcome, s₁⟩ := evaluated
  cases outcome with
  | environmentFailure => cases hreport
  | clean | violations =>
      cases hreport
      show (deliver host options report >>= _) s₁ = _
      rw [bind_apply]
      obtain ⟨result, s₂⟩ := deliver host options report s₁
      cases result <;> rfl

theorem check_of_delivered (h : FrontEnd.ofName? options.compiler = some frontEnd)
    (hreport : (evaluated host options frontEnd s).1.report? = some report)
    (hdeliver : deliver host options report (evaluated host options frontEnd s).2 =
      (.ok (), s')) :
    check host options s = ((evaluated host options frontEnd s).1.exitCode, s') := by
  rw [check_of_evaluated h hreport, hdeliver]

theorem check_of_undelivered {complaint : Complaint}
    (h : FrontEnd.ofName? options.compiler = some frontEnd)
    (hreport : (evaluated host options frontEnd s).1.report? = some report)
    (hdeliver : deliver host options report (evaluated host options frontEnd s).2 =
      (.error complaint, s')) :
    check host options s = (1, (host.printError complaint.toText s').2) := by
  rw [check_of_evaluated h hreport, hdeliver]

end TemplateGate.CommandLine
