import PipelineShell.Proofs.Abort.Execute
import PipelineShell.Proofs.Stopping.Answers

/-! When a pipeline stops the shell: a builtin of one of its stages says so, wherever the stage
stands. A failure that a line reports is another matter, and so is one that it cannot report. -/

namespace PipelineShell

open Attempt

namespace Shell

variable {τ : Type} {e : Engine τ} {tag : τ} {c : Command} {s t : Shell τ} {b : Bool}

theorem handler_of_called_false (h : called e tag c s = .ok false t) :
    ∃ v, e.handler tag c.args s = .ok false v := by
  obtain ⟨u, hcall, -⟩ := ensure_eq_ok.mp h
  rcases handle_eq_ok.mp hcall with hcall | ⟨f, v, y, -, hy, hreport⟩
  · exact ⟨u, hcall⟩
  · obtain ⟨-, rfl⟩ := reportAs_eq_some.mp hy
    obtain ⟨_, _, _, hpure⟩ := bind_eq_ok.mp hreport
    cases hpure

theorem called_of_handler_false {v : Shell τ} (h : e.handler tag c.args s = .ok false v)
    (hcalled : called e tag c s = .ok b t) : b = false := by
  obtain ⟨u, hcall, -⟩ := ensure_eq_ok.mp hcalled
  rw [handle_of_ok h] at hcall
  cases hcall
  rfl

theorem invoke_answers (h : invoke e tag c s = .ok b t) : b = false ↔ ∃ u v,
    openTargets c.redirection s = .ok () u ∧
      e.handler tag c.args { u with wiring := rewire c.redirection u.wiring } = .ok false v := by
  obtain ⟨u, v, hopen, hcalled, -⟩ := redirected_eq_ok.mp h
  constructor
  · rintro rfl
    obtain ⟨w, hhandler⟩ := handler_of_called_false hcalled
    exact ⟨u, w, hopen, hhandler⟩
  · rintro ⟨u', w, hopen', hhandler⟩
    cases hopen.symm.trans hopen'
    exact called_of_handler_false hhandler hcalled

end Shell

namespace Job

open Shell

variable {τ : Type} {e : Engine τ} {c : Command} {cs : List Command} {last : Bool} {j j' : Job τ}

/-- The builtin of the stage answers that the shell is not to go on. -/
def Declines (e : Engine τ) (c : Command) (last : Bool) (j : Job τ) : Prop :=
  ∃ tag entry v, Enters c last j tag entry ∧ e.handler tag c.args entry = .ok false v

theorem not_declines_of_isEmpty (hc : c.isEmpty = true) : ¬Declines e c last j := by
  rintro ⟨tag, entry, v, hentry, -⟩
  exact absurd (hc.symm.trans hentry.named) (by simp)

theorem not_declines_of_program (hb : j.shell.registry.isBuiltin c.name = false) :
    ¬Declines e c last j := by
  rintro ⟨tag, entry, v, hentry, -⟩
  exact absurd (hb.symm.trans hentry.builtin) (by simp)

theorem Enters.unique {tag tag' : τ} {entry entry' : Shell τ} (h : Enters c last j tag entry)
    (h' : Enters c last j tag' entry') : tag' = tag ∧ entry' = entry := by
  obtain ⟨t, hopen, rfl⟩ := h.opened
  obtain ⟨t', hopen', rfl⟩ := h'.opened
  cases hopen.symm.trans hopen'
  exact ⟨Except.ok.inj (h'.resolves.symm.trans h.resolves), rfl⟩

theorem not_declines_of_raised {tag : τ} {entry v : Shell τ} {f : Failure}
    (hentry : Enters c last j tag entry) (h : e.handler tag c.args entry = .error f v) :
    ¬Declines e c last j := by
  rintro ⟨tag', entry', w, hentry', h'⟩
  obtain ⟨rfl, rfl⟩ := hentry.unique hentry'
  cases h.symm.trans h'

theorem declines_iff_of_invoke {tag : τ} {b : Bool} {u : Shell τ} (hc : c.isEmpty = false)
    (hb : j.shell.registry.isBuiltin c.name = true)
    (htag : j.shell.registry.resolve c.name = .ok tag)
    (hinvoke : invoke e tag c (j.builtinShell last) = .ok b u) :
    b = false ↔ Declines e c last j := by
  refine (invoke_answers hinvoke).trans ⟨?_, ?_⟩
  · rintro ⟨t, v, hopen, hhandler⟩
    exact ⟨tag, _, v, ⟨hc, hb, htag, t, hopen, rfl⟩, hhandler⟩
  · rintro ⟨tag', entry, v, hentry, hhandler⟩
    obtain ⟨t, hopen, rfl⟩ := hentry.opened
    cases htag.symm.trans hentry.resolves
    exact ⟨t, v, hopen, hhandler⟩

theorem keepGoing_runStage (h : runStage e c last j = .ok () j') :
    j'.keepGoing = false ↔ j.keepGoing = false ∨ Declines e c last j := by
  cases hc : c.isEmpty with
  | true =>
    rw [runStage_of_isEmpty hc] at h
    have hkeep := keepGoing_of_overlooks (fun _ _ => overlooks_runEmpty (e := e) c.redirection) j
    rw [final_of_ok h] at hkeep
    rw [hkeep, or_iff_left (not_declines_of_isEmpty hc)]
  | false =>
    cases hb : j.shell.registry.isBuiltin c.name with
    | false =>
      rw [runStage_of_program hc hb] at h
      have hkeep := keepGoing_of_overlooks (fun _ _ => overlooks_runProcess (e := e) c last) j
      rw [final_of_ok h] at hkeep
      rw [hkeep, or_iff_left (not_declines_of_program hb)]
    | true =>
      obtain ⟨tag, htag⟩ := resolve_of_isBuiltin hb
      rw [runStage_of_resolve hc hb htag, runBuiltin_apply] at h
      cases hi : invoke e tag c (j.builtinShell last) with
      | error f u =>
        rw [hi] at h
        cases h
      | ok b u =>
        rw [hi] at h
        cases h
        rw [← declines_iff_of_invoke hc hb htag hi, Bool.and_eq_false_iff]

/-- Of some stages one declines, when it is come to. -/
def Stopped (e : Engine τ) (cs : List Command) (j : Job τ) : Prop :=
  ∃ before c after k, cs = before ++ c :: after ∧ passing e before j = .ok () k ∧
    Declines e c after.isEmpty k

theorem stopped_cons {k : Job τ} (h : runStage e c cs.isEmpty j = .ok () k) :
    Stopped e (c :: cs) j ↔ Declines e c cs.isEmpty j ∨ Stopped e cs k := by
  constructor
  · rintro ⟨before, d, after, l, hsplit, hpassing, hdeclines⟩
    cases before with
    | nil =>
      cases hsplit
      cases hpassing
      exact .inl hdeclines
    | cons b before =>
      obtain ⟨rfl, rfl⟩ := List.cons.inj hsplit
      have hmore : (before ++ d :: after).isEmpty = false := by cases before <;> rfl
      obtain ⟨_, k', hstage, hrest⟩ := bind_eq_ok.mp hpassing
      rw [List.append_eq, hmore] at h
      cases h.symm.trans hstage
      exact .inr ⟨before, d, after, l, rfl, hrest, hdeclines⟩
  · rintro (hdeclines | ⟨before, d, after, l, rfl, hpassing, hdeclines⟩)
    · exact ⟨[], c, cs, j, rfl, rfl, hdeclines⟩
    · have hmore : (before ++ d :: after).isEmpty = false := by cases before <;> rfl
      rw [hmore] at h
      exact ⟨c :: before, d, after, l, rfl, bind_eq_ok.mpr ⟨(), k, h, hpassing⟩, hdeclines⟩

/-- The answers of all stages are put together, whichever comes first. -/
theorem keepGoing_runStages (h : runStages e cs j = .ok () j') :
    j'.keepGoing = false ↔ j.keepGoing = false ∨ Stopped e cs j := by
  induction cs generalizing j with
  | nil =>
    cases h
    refine (or_iff_left ?_).symm
    rintro ⟨before, d, after, k, hsplit, -⟩
    cases before <;> cases hsplit
  | cons c cs ih =>
    obtain ⟨_, k, hstage, hrest⟩ := bind_eq_ok.mp h
    rw [ih hrest, keepGoing_runStage hstage, stopped_cons hstage, or_assoc]

theorem keepGoing_run {p : Pipeline} (h : run e p j = .ok () j') :
    j'.keepGoing = false ↔ j.keepGoing = false ∨ Stopped e p.stages j := by
  obtain ⟨j₂, hsteps, hfinish⟩ := ensure_eq_ok.mp h
  obtain ⟨_, j₁, hstages, hemit⟩ := bind_eq_ok.mp hsteps
  have hemitted := keepGoing_of_overlooks (fun _ _ => overlooks_emit) j₁
  have hfinished := keepGoing_of_overlooks (fun _ _ => overlooks_finish e.host.pipeRoom) j₂
  rw [final_of_ok hemit] at hemitted
  rw [final_of_ok hfinish] at hfinished
  rw [hfinished, hemitted, keepGoing_runStages hstages]

end Job

section

variable {τ : Type} {e : Engine τ} {p : Pipeline} {s : Shell τ}

theorem Pipeline.execute_eq_ok_false {b : Bool} {t : Shell τ} (h : p.execute e s = .ok b t) :
    b = false ↔ Job.Stopped e p.stages (Job.start s) := by
  cases hidle : p.isIdle with
  | false =>
    rw [execute_of_not_idle hidle] at h
    cases hrun : Job.run e p (Job.start s) with
    | error f j =>
      rw [hrun] at h
      cases h
    | ok a j =>
      rw [hrun] at h
      cases h
      rw [Job.keepGoing_run hrun]
      simp [Job.start]
  | true =>
    obtain ⟨first, rest⟩ := p
    obtain ⟨rfl, hfirst⟩ : rest = [] ∧ first.isEmpty = true := by
      simpa [isIdle, isSingle] using hidle
    simp only [execute, hidle, if_true] at h
    cases h
    refine iff_of_false (by simp) ?_
    rintro ⟨before, c, after, j, hsplit, -, hdeclines⟩
    cases before with
    | nil =>
      cases hsplit
      exact Job.not_declines_of_isEmpty hfirst hdeclines
    | cons b before => cases before <;> cases hsplit

theorem Shell.runLine_eq_ok_false {line : String} {t u : Shell τ} :
    runLine e line u = .ok false t ↔
      (Pipeline.parse line).execute e (u.noted line) = .ok false t := by
  cases hidle : (Pipeline.parse line).isIdle with
  | true => simp [runLine_of_isIdle hidle, Pipeline.execute, hidle]
  | false =>
    rw [runLine_apply hidle, handle_eq_ok]
    refine or_iff_left ?_
    rintro ⟨f, v, y, -, hy, hreport⟩
    obtain ⟨g, -, rfl⟩ := report_eq_some.mp hy
    obtain ⟨_, _, _, hpure⟩ := bind_eq_ok.mp hreport
    cases hpure

/-- When a pipeline, or the line that it stands in, stops the shell. -/
structure Stops (e : Engine τ) (p : Pipeline) (s : Shell τ) : Prop where
  /-- A pipeline that does not fail stops the shell just if one of its builtins answers so. -/
  answer : ∀ b t, p.execute e s = .ok b t → (b = false ↔ ∃ before c after j,
    p.stages = before ++ c :: after ∧ Job.passing e before (Job.start s) = .ok () j ∧
      Job.Declines e c after.isEmpty j)
  /-- Stages without a name do not answer so, nor do processes, nor builtins that fail. -/
  goesOn : ∀ before c after j j', p.stages = before ++ c :: after →
    Job.passing e before (Job.start s) = .ok () j →
    Job.runStage e c after.isEmpty j = .ok () j' →
    (c.isEmpty = true ∨ j.shell.registry.isBuiltin c.name = false ∨ ∃ tag entry f v,
      Job.Enters c after.isEmpty j tag entry ∧ e.handler tag c.args entry = .error f v) →
      j'.keepGoing = j.keepGoing
  /-- What the builtins answer makes no difference to any stage, before or after. -/
  unmoved : ∀ e', e.WorksAs e' →
    (∀ before j, Job.passing e before (Job.start s) = .ok () j →
      ∃ goesOn, Job.passing e' before (Job.start s) = .ok () (j.answering goesOn)) ∧
    (discard (p.execute e') : Shell.Step τ PUnit) s = discard (p.execute e) s
  /-- A line stops the shell just if its pipeline does, and leaves the same behind. -/
  line : ∀ line u t, Pipeline.parse line = p → u.noted line = s →
    (Shell.runLine e line u = .ok false t ↔ p.execute e s = .ok false t)
  /-- If a stage fails with a failure of the shell's own, the shell reports that and goes on,
  whatever the stages before it have answered, unless a file that is still open owes bytes to the
  full device. The line never ends if a process of it does not. -/
  raised : ∀ before c after j j' f line u, s.wiring = .own → p.isIdle = false →
    p.stages = before ++ c :: after → Job.passing e before (Job.start s) = .ok () j →
    Job.runStage e c after.isEmpty j = .error (.shell f) j' →
    Pipeline.parse line = p → u.noted line = s →
    (¬j'.Stuck e.host.pipeRoom → ¬j'.Owing →
      ∃ t, Dataflow.Settles (j'.files.map (·.2)) j'.shell.world.tree t ∧
        Shell.runLine e line u = .ok true { j'.shell.setTree t with
          errors := j'.shell.errors.write (f.message ++ "\n") }) ∧
    (¬j'.Stuck e.host.pipeRoom → j'.Owing →
      ∃ t, Shell.runLine e line u = .error (.fault (.refused .noSpace)) t) ∧
    (j'.Stuck e.host.pipeRoom → ∃ t, Shell.runLine e line u = .error .endless t)

end

end PipelineShell
