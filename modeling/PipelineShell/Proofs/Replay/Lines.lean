import PipelineShell.Proofs.Lexing.RoundTrip
import PipelineShell.Proofs.Replay.Stages
import PipelineShell.Proofs.Survival.Lines

/-! A line and the text that stands for it in the history. Run in the same shell they do the same,
though the text may be read as another pipeline: no stage depends on what is lost. -/

namespace PipelineShell

/-- What a stage does outside of the job: it calls a builtin, which may read a text, or it asks the
system to start a process. -/
inductive Deed (τ : Type)
  | called (tag : τ) (args : List String) (input : String)
  | started (launch : Launch)

namespace Job

open Shell

variable {τ : Type}

def opening (c : Command) : Job.Step τ (Option Nat × Option Nat) := do
  let out ← openDestination c.redirection.stdout
  let err ← openDestination c.redirection.stderr
  pure (out, err)

/-- The deed of a stage. There is none if a target cannot be opened, for one. -/
def deed (e : Engine τ) (c : Command) (last : Bool) (j : Job τ) : Option (Deed τ) :=
  if c.isEmpty then none
  else if j.shell.registry.isBuiltin c.name then
    match j.shell.registry.resolve c.name, openTargets c.redirection (j.builtinShell last) with
    | .ok tag, .ok _ s => some (.called tag c.args s.toRead)
    | _, _ => none
  else
    match j.shell.locate c.name, opening c j with
    | some path, .ok (out, err) j' =>
      if (c.name :: c.args).all FileTree.isPath && !j'.isBusy path then
        some (.started (j'.launchFor e c last path out err))
      else none
    | _, _ => none

/-- The deeds of the stages, as far as they run. -/
def deeds (e : Engine τ) : List Command → Job τ → List (Deed τ)
  | [], _ => []
  | c :: cs, j =>
    (deed e c cs.isEmpty j).toList ++
      match runStage e c cs.isEmpty j with
      | .ok _ j' => deeds e cs j'
      | .error _ _ => []

end Job

/-- The deeds of a line. -/
def Shell.lineDeeds {τ : Type} (e : Engine τ) (line : String) (s : Shell τ) : List (Deed τ) :=
  let p := Pipeline.parse line
  if p.isIdle then []
  else Job.deeds e p.stages (Job.start (s.noted line))

namespace Job

open Shell Attempt

variable {τ : Type} {e : Engine τ} {j j' : Job τ}

theorem retold_opening (c : Command) :
    Respects Retold (opening c : Job.Step τ (Option Nat × Option Nat)) :=
  (retold_openDestination _).bind fun _ => (retold_openDestination _).bind fun _ =>
    respects_pure _

theorem deed_retold (c : Command) (last : Bool) (hj : Retold j j') :
    deed e c last j' = deed e c last j := by
  obtain ⟨h, hh⟩ := hj
  have hregistry : (retell h j).shell.registry = j.shell.registry := rfl
  have hlocate : (retell h j).shell.locate c.name = j.shell.locate c.name := rfl
  have htargets := retold_openTargets c.redirection (j.builtinShell last) _ ⟨h, hh⟩
  have hbuiltin : (retell h j).builtinShell last = (j.builtinShell last).retell h := rfl
  have hopening := retold_opening c j _ ⟨h, hh⟩
  unfold deed
  rw [hregistry, hlocate, hbuiltin]
  generalize openTargets c.redirection (j.builtinShell last) = v at htargets
  generalize openTargets c.redirection ((j.builtinShell last).retell h) = w at htargets
  generalize opening c j = x at hopening
  generalize opening c (retell h j) = y at hopening
  split
  · rfl
  · split
    · cases j.shell.registry.resolve c.name with
      | error f => rfl
      | ok tag =>
        cases htargets with
        | ok h =>
          obtain ⟨h, hh⟩ := h
          rfl
        | error h => rfl
    · cases j.shell.locate c.name with
      | none => rfl
      | some path =>
        cases hopening with
        | ok h =>
          obtain ⟨h, hh⟩ := h
          rfl
        | error h => rfl

theorem deeds_retold (he : e.ReadsTexts) (cs : List Command) (hj : Retold j j') :
    deeds e cs j' = deeds e cs j := by
  induction cs generalizing j j' with
  | nil => rfl
  | cons c cs ih =>
    have hagree := retold_runStage he c cs.isEmpty j j' hj
    rw [deeds, deeds, deed_retold c _ hj]
    generalize runStage e c cs.isEmpty j = v at hagree
    generalize runStage e c cs.isEmpty j' = w at hagree
    cases hagree with
    | ok h => simp only [ih h]
    | error h => rfl

end Job

/-! What the written form has no place for makes no difference. -/

namespace Shell

variable {τ α : Type}

theorem redirected_normal (r : Redirection) (step : Shell.Step τ α) :
    redirected r.normal step = redirected r step := by
  obtain ⟨⟨out, outAppend⟩, ⟨err, errAppend⟩⟩ := r
  cases out <;> cases err <;> rfl

theorem openTargets_normal (r : Redirection) :
    (openTargets r.normal : Shell.Step τ Unit) = openTargets r := by
  obtain ⟨⟨out, outAppend⟩, ⟨err, errAppend⟩⟩ := r
  cases out <;> cases err <;> rfl

end Shell

namespace Job

variable {τ : Type} {e : Engine τ} {c : Command}

theorem openDestination_normal (d : Destination) :
    (openDestination d.normal : Job.Step τ (Option Nat)) = openDestination d := by
  obtain ⟨target, append⟩ := d
  cases target <;> rfl

theorem normal_of_named (hc : c.isEmpty = false) :
    c.normal = { c with redirection := c.redirection.normal } := by
  simp [Command.normal, hc]

theorem invoke_normal (hc : c.isEmpty = false) (tag : τ) :
    Shell.invoke e tag c.normal = Shell.invoke e tag c := by
  rw [normal_of_named hc, Shell.invoke, Shell.redirected_normal]
  rfl

theorem runStage_normal (c : Command) (last : Bool) :
    runStage e c.normal last = runStage e c last := by
  have hempty : c.normal.isEmpty = c.isEmpty := rfl
  cases hc : c.isEmpty with
  | true =>
    rw [runStage_of_isEmpty (hempty.trans hc), runStage_of_isEmpty hc, runEmpty_eq, runEmpty_eq]
    simp [Command.normal, Redirection.normal, openDestination_normal]
  | false =>
    have hbuiltin : ∀ tag, runBuiltin e tag c.normal last = runBuiltin e tag c last := by
      intro tag
      unfold runBuiltin
      rw [invoke_normal hc]
    have hprocess : runProcess e c.normal last = runProcess e c last := by
      rw [runProcess_eq, runProcess_eq, normal_of_named hc]
      have hlaunch : launch e { c with redirection := c.redirection.normal } last =
          launch e c last := rfl
      simp only [Redirection.normal, openDestination_normal] at hlaunch ⊢
      rw [hlaunch]
    funext j
    have hnormal : c.normal.isEmpty = false := hempty.trans hc
    cases hb : j.shell.registry.isBuiltin c.name with
    | true =>
      obtain ⟨tag, htag⟩ := resolve_of_isBuiltin hb
      rw [runStage_of_resolve hnormal hb htag, runStage_of_resolve hc hb htag, hbuiltin]
    | false => rw [runStage_of_program hnormal hb, runStage_of_program hc hb, hprocess]

theorem deed_congr {name : String} {args : List String} {r r' : Redirection}
    (htargets : (Shell.openTargets r' : Shell.Step τ Unit) = Shell.openTargets r)
    (hopening : (opening ⟨name, args, r'⟩ : Job.Step τ _) = opening ⟨name, args, r⟩)
    (last : Bool) (j : Job τ) :
    deed e ⟨name, args, r'⟩ last j = deed e ⟨name, args, r⟩ last j := by
  unfold deed
  rw [hopening]
  dsimp only
  rw [htargets]
  rfl

theorem deed_normal (c : Command) (last : Bool) (j : Job τ) :
    deed e c.normal last j = deed e c last j := by
  have hempty : c.normal.isEmpty = c.isEmpty := rfl
  cases hc : c.isEmpty with
  | true => simp [deed, hempty, hc]
  | false =>
    rw [normal_of_named hc]
    exact deed_congr (Shell.openTargets_normal c.redirection)
      (by simp [opening, Redirection.normal, openDestination_normal]) last j

theorem runStages_normal (cs : List Command) :
    runStages e (cs.map Command.normal) = runStages e cs := by
  induction cs with
  | nil => rfl
  | cons c cs ih => rw [List.map_cons, runStages, runStage_normal, ih, List.isEmpty_map, runStages]

theorem deeds_normal (cs : List Command) (j : Job τ) :
    deeds e (cs.map Command.normal) j = deeds e cs j := by
  induction cs generalizing j with
  | nil => rfl
  | cons c cs ih =>
    rw [List.map_cons, deeds, deed_normal, runStage_normal, List.isEmpty_map, deeds]
    simp only [ih]

end Job

namespace Pipeline

variable {τ : Type} {e : Engine τ}

theorem isIdle_normal (p : Pipeline) : p.normal.isIdle = p.isIdle := by
  have hempty : p.first.normal.isEmpty = p.first.isEmpty := rfl
  simp [isIdle, isSingle, normal, hempty]

theorem execute_normal (p : Pipeline) : p.normal.execute e = p.execute e := by
  have hstages : p.normal.stages = p.stages.map Command.normal := rfl
  have hrun : Job.run e p.normal = Job.run e p := by
    rw [Job.run, Job.run, hstages, Job.runStages_normal]
  funext s
  rw [execute, execute, isIdle_normal, hrun]

end Pipeline

namespace Shell

open Attempt

variable {τ : Type} {e : Engine τ}

theorem retold_execute (he : e.ReadsTexts) (p : Pipeline) : Respects Retold (p.execute e) := by
  rintro s _ ⟨h, hh⟩
  have hrun := Job.retold_run he p (Job.start s) _ ⟨h, hh⟩
  have hstart : Job.start (retell h s) = Job.retell h (Job.start s) := rfl
  unfold Pipeline.execute
  rw [hstart]
  split
  · exact .ok ⟨h, hh⟩
  · generalize Job.run e p (Job.start s) = v at hrun
    generalize Job.run e p (Job.retell h (Job.start s)) = w at hrun
    cases hrun with
    | ok h =>
      obtain ⟨h, hh⟩ := h
      exact .ok ⟨h, hh⟩
    | error h =>
      obtain ⟨h, hh⟩ := h
      exact .error ⟨h, hh⟩

theorem retold_report {f : Failure} {y : Shell.Step τ Bool} (hy : report f = some y) :
    Respects Retold y := by
  cases f with
  | shell f =>
    cases hy
    exact (hears_retold.line _ _).bind fun _ => respects_pure _
  | fault f => cases hy
  | other message => cases hy
  | endless => cases hy

/-- A line does the same as the text that the history keeps of it: the value or the failure is the
same, and so is the shell that is left, but for what the texts of its history stand for; and the
same deeds are done in the same order. -/
theorem runLine_render (he : e.ReadsTexts) (line : String) (s : Shell τ) :
    Agree Retold Retold (runLine e line s) (runLine e (Pipeline.parse line).render s) ∧
      lineDeeds e (Pipeline.parse line).render s = lineDeeds e line s := by
  have hparse := (Pipeline.parse line).parse_render_eq
  have hrender := (Pipeline.parse line).render_normal
  have hidle := (Pipeline.parse line).isIdle_normal
  unfold lineDeeds
  cases hp : (Pipeline.parse line).isIdle with
  | true =>
    rw [hp, ← hparse] at hidle
    rw [runLine_of_isIdle hp, runLine_of_isIdle hidle]
    simp only [hp, hidle, if_true]
    exact ⟨.ok .rfl, trivial⟩
  | false =>
    rw [hp, ← hparse] at hidle
    have hh : (s.noted line).history.Echoes (s.noted (Pipeline.parse line).render).history := by
      rw [noted, noted, hparse]
      exact History.Echoes.rfl.add hrender
    have hnoted : Retold (s.noted line) (s.noted (Pipeline.parse line).render) := .intro _ hh
    have hjobs : Job.Retold (Job.start (s.noted line))
        (Job.start (s.noted (Pipeline.parse line).render)) := .intro _ hh
    have hstages : (Pipeline.parse line).normal.stages =
        (Pipeline.parse line).stages.map Command.normal := rfl
    constructor
    · rw [runLine_apply hp, runLine_apply hidle, hparse, Pipeline.execute_normal]
      exact (retold_execute he _).handle (fun f y hy => retold_report hy) _ _ hnoted
    · simp only [hp, hidle, Bool.false_eq_true, if_false]
      rw [hparse, hstages, Job.deeds_normal, Job.deeds_retold he _ hjobs]

end Shell

namespace Replay

def trialEngine : Engine CommandTag :=
  ⟨Session.runCommand, fun _ => .error .noEntry, 1, .ample⟩

def trialShell : Shell CommandTag :=
  .start ⟨⟨[], 4096⟩, [], [], ⟨2024, 1, 1, 0, 0, 0, 0⟩, [], ⟨none, []⟩⟩
    Session.commands none (.empty 10) "" (.text "")

/-- The argument of a stage without a name is lost. -/
def trialLine : String :=
  "echo hi | '' lost > f | history"

theorem runLine_render_trial :
    Pipeline.parse (Pipeline.parse trialLine).render ≠ Pipeline.parse trialLine ∧
      Attempt.Agree Shell.Retold Shell.Retold (Shell.runLine trialEngine trialLine trialShell)
        (Shell.runLine trialEngine (Pipeline.parse trialLine).render trialShell) ∧
      Shell.lineDeeds trialEngine (Pipeline.parse trialLine).render trialShell =
        Shell.lineDeeds trialEngine trialLine trialShell := by
  refine ⟨?_, Shell.runLine_render (Session.readsTexts_runCommand _ _ _) trialLine trialShell⟩
  have hargs : (Pipeline.parse trialLine).rest.head?.map Command.args = some ["lost"] := by decide
  have hnone : (Pipeline.parse (Pipeline.parse trialLine).render).rest.head?.map Command.args =
      some [] := by decide
  intro hsame
  rw [hsame, hargs] at hnone
  cases hnone

end Replay

end PipelineShell
