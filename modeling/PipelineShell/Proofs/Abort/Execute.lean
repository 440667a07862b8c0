import PipelineShell.Proofs.Abort.Causes
import PipelineShell.Proofs.Dataflow.Execute
import PipelineShell.Proofs.Survival.Lines

/-! The first stage that fails ends its pipeline. What the stages before it did stays, and no stage
after it leaves a trace. -/

namespace PipelineShell

open Shell

namespace Job

variable {τ : Type} {e : Engine τ} {p : Pipeline} {before after : List Command} {c : Command}
  {s : Shell τ} {j j' : Job τ} {g : Failure}

/-- Of the shell, only the tree has changed. -/
def Replants (j j' : Job τ) : Prop :=
  j'.shell = j.shell.setTree j'.shell.world.tree

instance : IsPreorder (Job τ) Replants where
  refl _ := rfl
  trans j j' j'' h h' := by
    have hshell : j'.shell = j.shell.setTree j'.shell.world.tree := h
    have hshell' : j''.shell = j'.shell.setTree j''.shell.world.tree := h'
    rw [Replants, hshell', hshell]
    rfl

theorem replants_shutAll (fs : List (Nat × BlockWriter)) :
    Attempt.Keeps Replants (shutAll fs : Job.Step τ Unit) := by
  induction fs with
  | nil => exact Attempt.keeps_modify fun _ => rfl
  | cons f fs ih =>
    have hflush : Attempt.Keeps Replants (onFile f.1 BlockWriter.flush : Job.Step τ Unit) := by
      intro j
      cases hf : j.file? f.1 with
      | none =>
        simp only [Attempt.final, onFile, hf]
        exact refl_of Replants j
      | some w =>
        rw [final_onFile hf]
        rfl
    have hnote : Attempt.Keeps Replants (note (.shut f.1) : Job.Step τ Unit) :=
      Attempt.keeps_modify fun _ => rfl
    exact (hflush.ensure hnote).ensure ih

section

variable {room : Nat} (hj : j.Numbered) (hstuck : ¬j.Stuck room)

include hj hstuck

theorem finish_of_not_owing (howing : ¬j.Owing) : ∃ k,
    finish room j = .ok () k ∧ k.shell = j.shell.setTree k.shell.world.tree ∧
      Dataflow.Settles (j.files.map (·.2)) j.shell.world.tree k.shell.world.tree := by
  cases hfinish : finish room j with
  | error f k =>
    have hfull : Full f := throws_shutAll _ _ _ _ (finish_of_not_stuck hstuck ▸ hfinish)
    exact (howing ((finish_fails_iff hj hstuck).mp ⟨f, k, hfinish, hfull.escapes⟩)).elim
  | ok a k =>
    have hshut := finish_of_not_stuck hstuck ▸ hfinish
    have hstopped := j.stopped_files
    obtain ⟨hsettles, hshell, -⟩ := Dataflow.settles_of_shutAll hshut
      ⟨hstopped ▸ hj.nodup, fun f hf => j.stopped_fresh ▸ hj.below f (hstopped ▸ hf)⟩
      (fun f hf => hstopped ▸ hf) hj.nodup
    rw [stopped_shell] at hsettles
    exact ⟨k, rfl, hshell.trans (congrArg (Shell.setTree · _) j.stopped_shell), hsettles⟩

theorem finish_of_owing (howing : j.Owing) : ∃ k,
    finish room j = .error (.fault (.refused .noSpace)) k ∧
      k.shell = j.shell.setTree k.shell.world.tree := by
  obtain ⟨f, k, hfinish, -⟩ := (finish_fails_iff hj hstuck).mpr howing
  have hshut := finish_of_not_stuck hstuck ▸ hfinish
  have hfull : Full f := throws_shutAll _ _ _ _ hshut
  have hshell := (replants_shutAll j.files).error hshut
  refine ⟨k, hfull ▸ hfinish, ?_⟩
  rw [Replants, stopped_shell] at hshell
  exact hshell

end

theorem runStages_of_error (hbefore : passing e before j = .ok () j')
    {j'' : Job τ} (hc : runStage e c after.isEmpty j' = .error g j'') :
    runStages e (before ++ c :: after) j = .error g j'' := by
  rw [runStages_append_cons, Attempt.bind_of_ok hbefore, Attempt.bind_of_error hc]

theorem run_of_error (h : runStages e p.stages j = .error g j') :
    run e p j = match finish e.host.pipeRoom j' with
      | .ok _ j'' => .error g j''
      | .error f j'' => .error f j'' := by
  simp only [run, Attempt.ensure, Attempt.bind_of_error h]
  cases finish e.host.pipeRoom j' <;> rfl

end Job

section

variable {τ : Type} {e : Engine τ} {p : Pipeline} {before after : List Command} {c : Command}
  {s : Shell τ} {j j' : Job τ} {g : Failure}

/-- What the first stage of a pipeline that fails makes of it. The job is as the stages before have
left it, and then as that stage leaves it. -/
structure Aborts (e : Engine τ) (p : Pipeline) (s : Shell τ) (before : List Command) (c : Command)
    (after : List Command) (j j' : Job τ) (g : Failure) : Prop where
  /-- Nothing happens after the stage. -/
  stops : Job.runStages e p.stages (Job.start s) = .error g j'
  /-- It makes no difference which stages would have come after it. -/
  alone : ∀ (q : Pipeline) (later : List Command), q.stages = before ++ c :: later →
    later.isEmpty = after.isEmpty → q.execute e s = p.execute e s
  /-- The pipeline fails as the stage does, in the shell that the stage has left. Only the targets
  of stages without a name are closed. -/
  raises : ¬j'.Stuck e.host.pipeRoom → ¬j'.Owing → ∃ t,
    Dataflow.Settles (j'.files.map (·.2)) j'.shell.world.tree t ∧
    p.execute e s = .error g (j'.shell.setTree t)
  /-- It fails in another way when such a target owes bytes to the full device. -/
  masked : ¬j'.Stuck e.host.pipeRoom → j'.Owing → ∃ t,
    p.execute e s = .error (.fault (.refused .noSpace)) (j'.shell.setTree t)
  /-- It waits for ever when a process of a stage before does not end, since a relay has left more
  of what it wrote unread than there is room for. -/
  stalls : j'.Stuck e.host.pipeRoom → p.execute e s = .error .endless j'.shell
  /-- A failure of the shell's own has one of four reasons, and little has been done by then. -/
  cause : ∀ f, g = .shell f → Job.Raises e c after.isEmpty j f j'
  /-- One that a builtin raises comes out of its stage, unless its own targets owe bytes. -/
  heard : e.GoesByWiring → ∀ tag entry v f, Job.Enters c after.isEmpty j tag entry →
    e.handler tag c.args entry = .error (.shell f) v →
      (LeavesDebt c.redirection False v → Full g) ∧
        (¬LeavesDebt c.redirection False v → g = .shell f)
  /-- Nothing that is pending or kept comes to the shell's own output. -/
  withholds : e.GoesByWiring → j.shell.output = s.output ∧
    (after ≠ [] → j'.shell.output = s.output)
  /-- A line that fails so is reported by one line more in the errors, and the shell goes on. -/
  reports : ∀ u line f t, g = .shell f → Pipeline.parse line = p → u.noted line = s →
    p.execute e s = .error g t →
      runLine e line u = .ok true { t with errors := t.errors.write (f.message ++ "\n") }

theorem Pipeline.execute_eq_of_stages {q : Pipeline} {later : List Command}
    (hp : p.stages = before ++ c :: after) (hidle : p.isIdle = false)
    (hq : q.stages = before ++ c :: later) (hlater : later.isEmpty = after.isEmpty) :
    q.isIdle = false := by
  obtain ⟨first, rest⟩ := p
  obtain ⟨first', rest'⟩ := q
  cases before with
  | nil =>
    cases hp
    cases hq
    simpa [isIdle, isSingle, hlater] using hidle
  | cons b before =>
    cases hq
    simp [isIdle, isSingle]

theorem Pipeline.execute_of_error (hidle : p.isIdle = false)
    (h : Job.runStages e p.stages (Job.start s) = .error g j') : p.execute e s =
      match Job.finish e.host.pipeRoom j' with
      | .ok _ j'' => .error g j''.shell
      | .error f j'' => .error f j''.shell := by
  rw [execute_of_not_idle hidle, Job.run_of_error h]
  cases Job.finish e.host.pipeRoom j' <;> rfl

end

namespace Dataflow

def trialEcho : Command :=
  ⟨"echo", ["hi"], .none⟩

def trialUnknown : Command :=
  ⟨"nosuch", [], ⟨⟨some "out", false⟩, ⟨none, false⟩⟩⟩

def trialCat : Command :=
  ⟨"cat", [], .none⟩

/-- The text of the first stage is pending. -/
def trialPassed : Job Builtin :=
  { Job.start trialShell with
    shell := { trialShell with captured := "hi\n" }
    pending := .text "hi\n" }

end Dataflow

end PipelineShell
