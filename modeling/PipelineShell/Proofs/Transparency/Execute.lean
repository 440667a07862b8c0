import PipelineShell.Proofs.Abort.Execute
import PipelineShell.Proofs.Transparency.Blanks
import PipelineShell.Proofs.Transparency.Stages

/-! A stage that runs nothing and redirects nothing leaves what its pipeline does as it was, except
that it makes text of the output of a process before it, and takes the output of a builtin before it
that fails. -/

namespace PipelineShell

open Shell

namespace Shell

variable {τ : Type}

/-- All but the shell's own output and the text kept for the stage after is the same. -/
def SameButOutput (s t : Shell τ) : Prop :=
  t = { s with output := t.output, captured := t.captured }

end Shell

namespace Job

variable {τ : Type} {e : Engine τ} {c l : Command} {before : List Command} {p q : Pipeline}
  {j x y : Job τ} {out out' : Console}

/-- The same job, but for what has come to the output, what is kept and who has helped. -/
structure Paired (out out' : Console) (x y : Job τ) : Prop extends Akin x y where
  output : x.shell.output = out
  output' : y.shell.output = out'

theorem agree_onFile (n : Nat) (step : BlockWriter.Writing Unit) (h : Paired out out' x y) :
    Attempt.Agree (Paired out out') (Paired out out') (onFile n step x) (onFile n step y) := by
  have hfile : y.file? n = x.file? n := congrArg (List.lookup n) h.files
  have htree : y.shell.world.tree = x.shell.world.tree := by rw [h.shell]
  have hpaired : ∀ w t, Paired out out' (x.setFile n w t) (y.setFile n w t) := by
    refine fun w t => ⟨⟨?_, ?_, h.keepGoing⟩, h.output, h.output'⟩
    · exact congrArg (fun s : Shell τ => s.setTree t) h.shell
    · exact congrArg (List.map _) h.files
  unfold onFile
  rw [hfile, htree]
  cases x.file? n with
  | none => exact .ok h
  | some w =>
    dsimp only
    cases step (w, x.shell.world.tree) with
    | ok a p => exact .ok (hpaired _ _)
    | error f p => exact .error (hpaired _ _)

theorem agree_shutAll (fs : List (Nat × BlockWriter)) (h : Paired out out' x y) :
    Attempt.Agree (Paired out out') (Paired out out') (shutAll fs x) (shutAll fs y) := by
  induction fs generalizing x y with
  | nil => exact .ok ⟨⟨h.shell, rfl, h.keepGoing⟩, h.output, h.output'⟩
  | cons f fs ih =>
    refine Attempt.Agree.ensure (Attempt.Agree.ensure (agree_onFile _ _ h) fun x y h => ?_)
      fun _ _ h => ih h
    exact .ok ⟨⟨h.shell, h.files, h.keepGoing⟩, h.output, h.output'⟩

/-- Besides, the two jobs wait for ever or not. -/
structure Matched (out out' : Console) (x y : Job τ) : Prop extends Twin x y, Paired out out' x y

theorem agree_finish (room : Nat) (h : Matched out out' x y) :
    Attempt.Agree (Paired out out') (Paired out out') (finish room x) (finish room y) := by
  have hpaired : ∀ {x' y' : Job τ}, x'.shell = x.shell → y'.shell = y.shell → x'.files = x.files →
      y'.files = y.files → x'.keepGoing = x.keepGoing → y'.keepGoing = y.keepGoing →
      Paired out out' x' y' := by
    intro x' y' hx hy hx' hy' hx'' hy''
    exact ⟨⟨by rw [hx, hy, ← h.shell], by rw [hx', hy', h.files], by rw [hx'', hy'', h.keepGoing]⟩,
      by rw [hx, h.output], by rw [hy, h.output']⟩
  by_cases hstuck : x.Stuck room
  · obtain ⟨_, -, hx⟩ := finish_of_stuck hstuck
    obtain ⟨_, -, hy⟩ := finish_of_stuck ((h.stuck room).mpr hstuck)
    rw [hx, hy]
    exact .error (hpaired x.dropped_shell y.dropped_shell x.dropped_files y.dropped_files
      x.dropped_keepGoing y.dropped_keepGoing)
  · rw [finish_of_not_stuck hstuck, finish_of_not_stuck (mt (h.stuck room).mp hstuck), h.files]
    exact agree_shutAll _ (hpaired x.stopped_shell y.stopped_shell x.stopped_files y.stopped_files
      x.stopped_keepGoing y.stopped_keepGoing)

theorem agree_run (h : Attempt.Agree (Matched out out') (Matched out out')
      ((do runStages e p.stages; emit : Job.Step τ Unit) x)
      ((do runStages e q.stages; emit : Job.Step τ Unit) y)) :
    Attempt.Agree (Paired out out') (Paired out out') (run e p x) (run e q y) :=
  Attempt.Agree.ensure h fun _ _ h => agree_finish _ h

/-- A last stage with the stages before it, and the same with a blank stage after it. -/
theorem agree_runStages (he : e.GoesByWiring) (hb : e.Blind) (hc : c.isBlank = true)
    (before : List Command) (hw : j.shell.wiring = .own) (hj : j.Accounted []) :
    Attempt.Agree (Handed j.shell.output) (Lost j.shell.output)
      (runStages e (before ++ [l]) j) (runStages e (before ++ [l, c]) j) := by
  have hrest : ∀ last j', (runStage e l last >>= fun _ => runStages e []) j' =
      runStage e l last j' := by
    intro last j'
    rw [Attempt.bind_apply]
    cases runStage e l last j' <;> rfl
  have hblank : runStages e [c] = (pure () : Job.Step τ Unit) := runStages_cons_of_isBlank hc []
  rw [runStages_append_cons, runStages_append_cons, hblank]
  refine (agree_of_withholds (withholds_passing he before) (accounts_passing before)
    ⟨rfl, hw, rfl, hj⟩).bind fun _ x y h => ?_
  have hstages := agree_runStage (c := l) he hb h
  rw [← hrest true, ← hrest false] at hstages
  exact hstages

/-- The builtins of these stages raise no failure of the shell's own, as far as they run. -/
def Unraising (e : Engine τ) (cs : List Command) (j : Job τ) : Prop :=
  ∀ before c after j' tag entry f v, cs = before ++ c :: after → passing e before j = .ok () j' →
    Enters c after.isEmpty j' tag entry → e.handler tag c.args entry ≠ .error (.shell f) v

theorem unraising_of_faults (h : ∀ tag args, Attempt.Throws Failure.IsFault (e.handler tag args))
    (cs : List Command) (j : Job τ) : Unraising e cs j :=
  fun _ c _ _ tag entry f _ _ _ _ hraised => (h tag c.args entry _ _ hraised).ne_shell f rfl

theorem output_of_shell {f : ShellFailure} {j' : Job τ} (he : e.GoesByWiring)
    (hw : j.shell.wiring = .own) (hquiet : Unraising e (before ++ [l]) j)
    (h : runStages e (before ++ [l]) j = .error (.shell f) j') :
    j'.shell.output = j.shell.output := by
  have htree : ∀ {s t : Shell τ}, TreeOnly s t → t.output = s.output := by
    intro s t h
    rw [h]
  rw [runStages_append_cons] at h
  rcases Attempt.bind_eq_error.mp h with hbefore | ⟨_, i, hbefore, hlast⟩
  · exact ((withholds_passing he before).error hbefore).output hw
  · have hi : i.shell.output = j.shell.output :=
      ((withholds_passing he before).ok hbefore).output hw
    rcases Attempt.bind_eq_error.mp hlast with hstage | ⟨_, _, _, hnone⟩
    · cases raises_of_runStage hstage with
      | unknown _ _ _ => exact hi
      | target _ hshell _ _ => exact (htree hshell).trans hi
      | spawn _ _ hshell _ _ _ _ => rw [hold_shell, htree hshell, hi]
      | handler hentry hraised _ _ _ _ _ =>
        exact (hquiet before l [] i _ _ _ _ rfl hbefore hentry hraised).elim
    · cases hnone

theorem stages_emit_of_ok {i : Job τ} (hw : j.shell.wiring = .own)
    (h : runStages e p.stages j = .ok () i) :
    ∃ i', (do runStages e p.stages; emit : Job.Step τ Unit) j = .ok () i' := by
  have hi : i.shell.wiring = .own := ((steady_runStages p.stages).ok h).wiring.trans hw
  obtain ⟨i', hemit, -⟩ := exists_emit_eq hi
  exact ⟨i', by rw [Attempt.bind_of_ok h, hemit]⟩

/-- Only the closing of the open targets can keep a pipeline from failing as its stages do. -/
theorem run_eq_shell {f : ShellFailure} {i : Job τ} (hw : j.shell.wiring = .own)
    (h : run e p j = .error (.shell f) i) :
    ∃ i', runStages e p.stages j = .error (.shell f) i' ∧
      finish e.host.pipeRoom i' = .ok () i := by
  rcases Attempt.ensure_eq_error.mp h with hfinish | ⟨i', hbody, hfinish⟩
  · exact (escapes_finish _ _ _ _ hfinish f rfl).elim
  · cases hstages : runStages e p.stages j with
    | ok a k =>
      obtain ⟨_, hok⟩ := stages_emit_of_ok hw hstages
      rw [hok] at hbody
      cases hbody
    | error g k =>
      rw [Attempt.bind_of_error hstages] at hbody
      cases hbody
      exact ⟨_, rfl, hfinish⟩

theorem agree_of_delivered {base : Console} {v w : EStateM.Result Failure (Job τ) Unit}
    (h : Attempt.Agree (Delivered base) (Lost base) v w) : ∃ out out',
      Attempt.Agree (Matched out out') (Matched out out') v w ∧
      (∀ i, v = .ok () i → ∃ pieces,
        out = base.receive pieces ∧ out' = base.write (Text.decodePieces pieces)) ∧
      ∀ f i, v = .error f i → out' = base ∧ ∃ text, out = base.write text := by
  cases h with
  | @ok _ x y h =>
    refine ⟨x.shell.output, y.shell.output, .ok ⟨h.toTwin, rfl, rfl⟩, fun _ _ => h.output, ?_⟩
    rintro _ _ ⟨⟩
  | @error _ x y h =>
    refine ⟨x.shell.output, y.shell.output, .error ⟨h.toTwin, rfl, rfl⟩, ?_,
      fun _ _ _ => ⟨h.lost, h.kept⟩⟩
    rintro _ ⟨⟩

end Job

section

variable {τ : Type} {e : Engine τ} {before after : List Command} {p q : Pipeline} {c : Command}
  {s : Shell τ} {out out' : Console}

/-- How a pipeline runs with a blank stage more, which stands before the stages `after`. -/
structure Transparent (e : Engine τ) (p q : Pipeline) (after : List Command) (s : Shell τ) :
    Prop where
  /-- Before another stage it makes no difference at all. -/
  inside : after ≠ [] → q.execute e s = p.execute e s
  /-- The pipeline ends in the same way, and but for the shell's own output in the same state. -/
  ends : Attempt.Agree SameButOutput SameButOutput (p.execute e s) (q.execute e s)
  /-- Each builtin finds the same at its input. -/
  readings : Job.readings e q.stages (Job.start s) = Job.readings e p.stages (Job.start s)
  /-- When the stages run, what would come to the output comes to it as text. -/
  passed : after = [] → ∀ j, Job.runStages e p.stages (Job.start s) = .ok () j → ∃ pieces,
    ((p.execute e).final s).output = s.output.receive pieces ∧
    ((q.execute e).final s).output = s.output.write (Text.decodePieces pieces)
  /-- So the output is the same just when it is that of a text. -/
  exact : ∀ j, Job.runStages e p.stages (Job.start s) = .ok () j →
    (((q.execute e).final s).output = ((p.execute e).final s).output ↔
      after = [] → ∃ text, ((p.execute e).final s).output = s.output.write text)
  /-- In memory it is the same. -/
  memory : ∀ j written, Job.runStages e p.stages (Job.start s) = .ok () j →
    s.output = .text written → ((q.execute e).final s).output = ((p.execute e).final s).output
  /-- When a stage fails, nothing has come to the output, whatever would have by then. -/
  dropped : after = [] → ∀ f j, Job.runStages e p.stages (Job.start s) = .error f j →
    ((q.execute e).final s).output = s.output ∧
    ∃ text, ((p.execute e).final s).output = s.output.write text
  /-- Nothing would have when the failure is one of the shell's own. -/
  heard : ∀ f t, p.execute e s = .error (.shell f) t →
    ((q.execute e).final s).output = ((p.execute e).final s).output

structure Parted (out out' : Console) (s t : Shell τ) : Prop where
  same : SameButOutput s t
  output : s.output = out
  output' : t.output = out'

theorem isIdle_of_mem (hc : c ∈ p.stages) (hname : c.isEmpty = false) : p.isIdle = false := by
  obtain ⟨first, rest⟩ := p
  cases rest with
  | cons _ _ => rfl
  | nil =>
    cases List.mem_singleton.mp hc
    exact hname

theorem Pipeline.execute_congr (hp : p.isIdle = false) (hq : q.isIdle = false)
    (h : Job.runStages e q.stages (Job.start s) = Job.runStages e p.stages (Job.start s)) :
    q.execute e s = p.execute e s := by
  have hrun : Job.run e q (Job.start s) = Job.run e p (Job.start s) :=
    Attempt.ensure_congr (by rw [Attempt.bind_apply, Attempt.bind_apply, h]) _
  rw [execute_of_not_idle hp, execute_of_not_idle hq, hrun]

theorem Pipeline.agree_execute (hp : p.isIdle = false) (hq : q.isIdle = false)
    (h : Attempt.Agree (Job.Matched out out') (Job.Matched out out')
      ((do Job.runStages e p.stages; Job.emit : Job.Step τ Unit) (Job.start s))
      ((do Job.runStages e q.stages; Job.emit : Job.Step τ Unit) (Job.start s))) :
    Attempt.Agree (Parted out out') (Parted out out') (p.execute e s) (q.execute e s) := by
  have hrun := Job.agree_run h
  rw [execute_of_not_idle hp, execute_of_not_idle hq]
  generalize Job.run e p (Job.start s) = v at hrun
  generalize Job.run e q (Job.start s) = w at hrun
  cases hrun with
  | ok h =>
    dsimp only
    rw [h.keepGoing]
    exact .ok ⟨h.shell, h.output, h.output'⟩
  | error h => exact .error ⟨h.shell, h.output, h.output'⟩

theorem Pipeline.exists_of_execute_shell {f : ShellFailure} {t : Shell τ} (hs : s.wiring = .own)
    (hp : p.isIdle = false) (h : p.execute e s = .error (.shell f) t) : ∃ i,
      Job.runStages e p.stages (Job.start s) = .error (.shell f) i ∧
      t.output = i.shell.output := by
  rw [execute_of_not_idle hp] at h
  cases hj : Job.run e p (Job.start s) with
  | ok a j =>
    rw [hj] at h
    cases h
  | error g j =>
    rw [hj] at h
    cases h
    obtain ⟨i, hi, hfinish⟩ := Job.run_eq_shell hs hj
    refine ⟨i, hi, ?_⟩
    have hshell := (Job.replants_shutAll i.files).ok (Job.finish_eq_ok.mp hfinish).2
    rw [Job.Replants, Job.stopped_shell] at hshell
    have houtput : (i.shell.setTree j.shell.world.tree).output = i.shell.output := rfl
    exact (congrArg Shell.output hshell).trans houtput

/-- The one pipeline is the other with a blank stage more. -/
structure Pipeline.Inserts (before : List Command) (c : Command) (after : List Command)
    (p q : Pipeline) : Prop where
  blank : c.isBlank = true
  stages : p.stages = before ++ after
  more : q.stages = before ++ c :: after
  works : p.isIdle = false
  works' : q.isIdle = false

theorem transparent_of_ne_nil (h : Pipeline.Inserts before c after p q) (hafter : after ≠ []) :
    Transparent e p q after s := by
  obtain ⟨hc, hstages, hmore, hp, hq⟩ := h
  have hruns : Job.runStages e q.stages (Job.start s) = Job.runStages e p.stages (Job.start s) := by
    rw [hstages, hmore, Job.runStages_append (by simp), Job.runStages_append hafter,
      Job.runStages_cons_of_isBlank hc]
  have hsame := Pipeline.execute_congr hp hq hruns
  have hfinal : (q.execute e).final s = (p.execute e).final s := by
    unfold Attempt.final
    rw [hsame]
  refine ⟨fun _ => hsame, ?_, ?_, fun h => absurd h hafter, ?_, ?_, fun h => absurd h hafter, ?_⟩
  · rw [hsame]
    cases p.execute e s with
    | ok b t => exact .ok rfl
    | error f t => exact .error rfl
  · rw [hstages, hmore]
    exact Job.readings_insert hc _ _ _ (by simp [hafter])
  · exact fun j _ => iff_of_true (by rw [hfinal]) fun h => absurd h hafter
  · exact fun _ _ _ _ => by rw [hfinal]
  · exact fun _ _ _ => by rw [hfinal]

theorem transparent_of_nil (he : e.GoesByWiring) (hb : e.Blind) (hs : s.wiring = .own)
    (hquiet : Job.Unraising e p.stages (Job.start s)) (h : Pipeline.Inserts before c [] p q) :
    Transparent e p q [] s := by
  obtain ⟨hc, hstages, hmore, hp, hq⟩ := h
  rw [List.append_nil] at hstages
  have hnone : before ≠ [] := by
    rw [← hstages]
    exact List.cons_ne_nil _ _
  have hreadings : Job.readings e q.stages (Job.start s) =
      Job.readings e p.stages (Job.start s) := by
    rw [hstages, hmore, Job.readings_insert hc _ _ _ (by simpa using hnone), List.append_nil]
  obtain ⟨before, l, rfl⟩ := List.eq_nil_or_concat before |>.resolve_left hnone
  rw [List.concat_eq_append] at hstages hmore
  have hmore' : q.stages = before ++ [l, c] := by
    rw [hmore, List.append_assoc, List.singleton_append]
  have hruns := Job.agree_runStages (j := Job.start s) (l := l) he hb hc before hs
    (Job.accounted_start s)
  rw [← hstages, ← hmore'] at hruns
  have hbody := hruns.bind (f := fun _ => Job.emit) (g := fun _ => Job.emit)
    fun _ _ _ h => Job.agree_emit h
  obtain ⟨out, out', hpaired, hok, herror⟩ := Job.agree_of_delivered hbody
  have hends := Pipeline.agree_execute hp hq hpaired
  have hfinal := hends.final
  have hpassed : ∀ j, Job.runStages e p.stages (Job.start s) = .ok () j → ∃ pieces,
      ((p.execute e).final s).output = s.output.receive pieces ∧
      ((q.execute e).final s).output = s.output.write (Text.decodePieces pieces) := by
    intro j hj
    obtain ⟨i, hi⟩ := Job.stages_emit_of_ok hs hj
    obtain ⟨pieces, hout, hout'⟩ := hok i hi
    exact ⟨pieces, hfinal.output.trans hout, hfinal.output'.trans hout'⟩
  have hdropped : ∀ f j, Job.runStages e p.stages (Job.start s) = .error f j →
      ((q.execute e).final s).output = s.output ∧
      ∃ text, ((p.execute e).final s).output = s.output.write text := by
    intro f j hj
    obtain ⟨hlost, text, hkept⟩ := herror f j (Attempt.bind_of_error hj _)
    exact ⟨hfinal.output'.trans hlost, text, hfinal.output.trans hkept⟩
  refine ⟨fun h => absurd rfl h, hends.mono (fun _ _ => (·.same)) fun _ _ => (·.same), hreadings,
    fun _ => hpassed, fun j hj => ?_, fun j written hj hmemory => ?_, fun _ => hdropped,
    fun f t hfail => ?_⟩
  · obtain ⟨pieces, hout, hout'⟩ := hpassed j hj
    rw [hout, hout', eq_comm, Console.receive_eq_write_iff]
    exact ⟨fun h _ => h, fun h => h rfl⟩
  · obtain ⟨pieces, hout, hout'⟩ := hpassed j hj
    rw [hout, hout', hmemory]
    rfl
  · obtain ⟨i, hi, hout⟩ := Pipeline.exists_of_execute_shell hs hp hfail
    have hnothing : i.shell.output = s.output := by
      rw [hstages] at hi hquiet
      exact Job.output_of_shell he hs hquiet hi
    rw [(hdropped _ i hi).1, Attempt.final_of_error hfail, hout, hnothing]

/-- Whether a pipeline has one blank stage more is seen at most in what comes to the shell's own
output, and there only if the stage is the last. -/
theorem Pipeline.transparent_of_isBlank (he : e.GoesByWiring) (hb : e.Blind) (hs : s.wiring = .own)
    (hname : ∃ b ∈ p.stages, b.isEmpty = false) (hquiet : Job.Unraising e p.stages (Job.start s))
    (hstages : p.stages = before ++ after) (hmore : q.stages = before ++ c :: after)
    (hc : c.isBlank = true) : Transparent e p q after s := by
  obtain ⟨b, hmem, hb'⟩ := hname
  have hmem' : b ∈ q.stages := by
    rw [hstages] at hmem
    rw [hmore]
    simp only [List.mem_append, List.mem_cons] at hmem ⊢
    tauto
  have hinserts : Pipeline.Inserts before c after p q :=
    ⟨hc, hstages, hmore, isIdle_of_mem hmem hb', isIdle_of_mem hmem' hb'⟩
  cases after with
  | nil => exact transparent_of_nil he hb hs hquiet hinserts
  | cons a after => exact transparent_of_ne_nil hinserts (by simp)

end

namespace Transparency

def trialEngine : Engine Builtin :=
  ⟨Builtin.run, fun _ => .ok [(.stdout, ⟨#[0xff]⟩)], 1, .ample⟩

def trialShell : Shell Builtin :=
  .start ⟨⟨[(["e"], .file .empty true)], 4096⟩, [], [], ⟨2024, 1, 1, 0, 0, 0, 0⟩, [], ⟨none, []⟩⟩
    ⟨[]⟩ none (.empty 0) "" (.raw .empty)

def trialCommand : Command :=
  ⟨"/e", [], .none⟩

def trialBlank : Command :=
  ⟨"", [], .none⟩

theorem transparent_of_isBlank_trial :
    Transparent trialEngine ⟨trialCommand, []⟩ ⟨trialCommand, [trialBlank]⟩ [] trialShell ∧
    (((⟨trialCommand, []⟩ : Pipeline).execute trialEngine).final trialShell).output =
      .raw ⟨#[0xff]⟩ ∧
    (((⟨trialCommand, [trialBlank]⟩ : Pipeline).execute trialEngine).final trialShell).output =
      .raw ⟨#[0xef, 0xbf, 0xbd]⟩ := by
  have hstages : Pipeline.stages ⟨trialCommand, []⟩ = [trialCommand] ++ [] := rfl
  have hmore : Pipeline.stages ⟨trialCommand, [trialBlank]⟩ = [trialCommand] ++ [trialBlank] := rfl
  refine ⟨?_, by decide +kernel, by decide +kernel⟩
  exact Pipeline.transparent_of_isBlank (Builtin.onlyRoams _ _ _).goesByWiring
    (Builtin.blind _ _ _) rfl ⟨trialCommand, by decide, by decide⟩
    (Job.unraising_of_faults Builtin.faults_run _ _) hstages hmore (by decide)

end Transparency

end PipelineShell
