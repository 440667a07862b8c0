import PipelineShell.Proofs.Abort.Causes

/-! The sinks of a stage last no longer than the stage. Whatever a builtin does, be it to the wiring
itself, the wiring is put back, and each stage begins with the sinks that the shell had before the
first. -/

namespace PipelineShell

namespace Shell

variable {τ α : Type} {s t : Shell τ}

def SameWiring (s t : Shell τ) : Prop :=
  t.wiring = s.wiring

instance : IsPreorder (Shell τ) SameWiring where
  refl _ := rfl
  trans _ _ _ h h' := Eq.trans h' h

theorem FilesOnly.sameWiring (h : FilesOnly s t) : SameWiring s t :=
  h.wiring

theorem sameWiring_bound (change : Wiring → Wiring) (step : Shell.Step τ α) :
    Attempt.Keeps SameWiring (bound change step) := by
  intro s
  rw [final_bound]
  rfl

/-- Nothing is asked of the step: it may change the wiring, and fail in any way. -/
theorem sameWiring_redirected (r : Redirection) (step : Shell.Step τ α) :
    Attempt.Keeps SameWiring (redirected r step) := by
  have hopen : ∀ stream d,
      Attempt.Keeps SameWiring (openDestination stream d : Shell.Step τ Unit) :=
    fun stream d => (keeps_openDestination stream d).mono fun _ _ => FilesOnly.sameWiring
  have hclose : ∀ stream d,
      Attempt.Keeps SameWiring (closeDestination stream d : Shell.Step τ Unit) :=
    fun stream d => (keeps_closeDestination stream d).mono fun _ _ => FilesOnly.sameWiring
  rw [redirected_eq]
  exact (hopen _ _).bind fun _ => ((hopen _ _).bind fun _ =>
    (sameWiring_bound _ step).ensure (hclose _ _)).ensure (hclose _ _)

theorem bound_congr {change : Wiring → Wiring} {x y : Shell.Step τ α}
    (h : x { s with wiring := change s.wiring } = y { s with wiring := change s.wiring }) :
    bound change x s = bound change y s := by
  simp only [bound, h]

theorem redirected_congr {r : Redirection} {x y : Shell.Step τ α}
    (h : ∀ t, openTargets r s = .ok () t →
      x { t with wiring := rewire r t.wiring } = y { t with wiring := rewire r t.wiring }) :
    redirected r x s = redirected r y s := by
  cases hopen : openTargets r s with
  | ok a t =>
    rw [redirected_of_openTargets hopen, redirected_of_openTargets hopen]
    exact Attempt.ensure_congr (Attempt.ensure_congr (bound_congr (h t hopen)) _) _
  | error f t =>
    rw [redirected_eq, redirected_eq]
    rcases Attempt.bind_eq_error.mp hopen with hout | ⟨_, s₁, hout, herr⟩
    · rw [Attempt.bind_of_error hout, Attempt.bind_of_error hout]
    · rw [Attempt.bind_of_ok hout, Attempt.bind_of_ok hout]
      refine Attempt.ensure_congr ?_ _
      rw [Attempt.bind_of_error herr, Attempt.bind_of_error herr]

theorem opened_of_openDestination {stream : Stream} {d : Destination} {path : String}
    (hd : d.target = some path) (h : openDestination stream d s = .ok () t) :
    ∃ place tree, FileTree.openTarget s.world.dir path d.append s.world.tree = .ok place tree ∧
      t.file stream = some (.start place d.append) := by
  rw [openDestination_apply, Destination.openIn, hd] at h
  cases hopen : FileTree.openTarget s.world.dir path d.append s.world.tree with
  | ok place tree =>
    simp only [Attempt.bind_of_ok hopen, Attempt.pure_apply] at h
    cases h
    exact ⟨place, tree, rfl, file_setFile_self _ _ _⟩
  | error f tree =>
    simp only [Attempt.bind_of_error hopen] at h
    cases h

theorem file_of_openOther {stream other : Stream} (hne : stream ≠ other)
    {d : Destination} (h : openDestination other d s = .ok () t) :
    t.file stream = s.file stream := by
  rw [openDestination_apply] at h
  cases hopen : d.openIn s.world.dir s.world.tree with
  | error f tree =>
    rw [hopen] at h
    cases h
  | ok place tree =>
    rw [hopen] at h
    cases h
    cases place with
    | none => cases stream <;> rfl
    | some place => exact file_setFile_of_ne hne _ _

theorem opened_of_openTargets {r : Redirection} {stream : Stream} {path : String}
    (hpath : (r.get stream).target = some path) (h : openTargets r s = .ok () t) :
    ∃ tree place tree', FileTree.openTarget s.world.dir path (r.get stream).append tree =
      .ok place tree' ∧ t.file stream = some (.start place (r.get stream).append) := by
  obtain ⟨_, s₁, hout, herr⟩ := Attempt.bind_eq_ok.mp h
  cases stream with
  | stdout =>
    obtain ⟨place, tree, hopen, hfile⟩ := opened_of_openDestination hpath hout
    exact ⟨_, place, tree, hopen, (file_of_openOther (by decide) herr).trans hfile⟩
  | stderr =>
    have hdir : s₁.world.dir = s.world.dir := by
      rw [((keeps_openDestination _ _).ok hout).same]
    obtain ⟨place, tree, hopen, hfile⟩ := opened_of_openDestination hpath herr
    exact ⟨_, place, tree, hdir ▸ hopen, hfile⟩

theorem invoke_congr {e e' : Engine τ} {tag : τ} {c : Command}
    (h : ∀ t, openTargets c.redirection s = .ok () t →
      e'.handler tag c.args { t with wiring := rewire c.redirection t.wiring } =
        e.handler tag c.args { t with wiring := rewire c.redirection t.wiring }) :
    invoke e' tag c s = invoke e tag c s := by
  refine redirected_congr fun t ht => Attempt.ensure_congr ?_ _
  simp only [Attempt.handle, h t ht]

end Shell

namespace Job

open Shell

variable {τ : Type} {e : Engine τ} {c : Command} {last : Bool} {j : Job τ}

/-- What the builtin of a stage reads from and writes to, told by the sinks of the shell and by what
the stages before have left for this one. -/
structure Sees (base : Wiring) (c : Command) (last : Bool) (j : Job τ) (entry : Shell τ) :
    Prop where
  stdin : entry.wiring.stdin = if j.drained.isSome then .given else base.stdin
  stdout : entry.wiring.stdout =
    if c.redirection.stdout.target.isSome then .file .stdout
    else if last then base.stdout else .captured
  stderr : entry.wiring.stderr =
    if c.redirection.stderr.target.isSome then .file .stderr else base.stderr
  given : entry.given = j.drained.getD ""
  captured : entry.captured = ""
  /-- The files are those that have been opened for this stage. -/
  files : ∀ stream path, (c.redirection.get stream).target = some path →
    ∃ tree place tree', FileTree.openTarget j.shell.world.dir path
      (c.redirection.get stream).append tree = .ok place tree' ∧
        entry.file stream = some (.start place (c.redirection.get stream).append)

theorem Enters.sees {tag : τ} {entry : Shell τ} (h : Enters c last j tag entry) :
    Sees j.shell.wiring c last j entry := by
  obtain ⟨t, hopen, rfl⟩ := h.opened
  have hfiles := (keeps_openTargets c.redirection).ok hopen
  refine ⟨?_, ?_, ?_, hfiles.given, hfiles.captured, fun stream path hpath => ?_⟩
  · simp only [rewire, hfiles.wiring]
    rfl
  · simp only [rewire, hfiles.wiring]
    rfl
  · simp only [rewire, hfiles.wiring]
    rfl
  · obtain ⟨tree, place, tree', h, hfile⟩ := opened_of_openTargets hpath hopen
    exact ⟨tree, place, tree', h, by cases stream <;> exact hfile⟩

/-- Of the builtins, nothing counts in a stage but what its own does where it is called. -/
theorem runStage_congr {e' : Engine τ} (hprograms : e'.programs = e.programs)
    (hchunk : e'.chunkSize = e.chunkSize) (hhost : e'.host = e.host)
    (h : ∀ tag entry, Enters c last j tag entry →
      e'.handler tag c.args entry = e.handler tag c.args entry) :
    runStage e' c last j = runStage e c last j := by
  cases hc : c.isEmpty with
  | true =>
    rw [runStage_of_isEmpty hc, runStage_of_isEmpty hc, runEmpty_congr hchunk hhost]
  | false =>
    cases hb : j.shell.registry.isBuiltin c.name with
    | false =>
      rw [runStage_of_program hc hb, runStage_of_program hc hb,
        runProcess_congr hprograms hchunk hhost]
    | true =>
      obtain ⟨tag, htag⟩ := resolve_of_isBuiltin hb
      rw [runStage_of_resolve hc hb htag, runStage_of_resolve hc hb htag, runBuiltin_apply,
        runBuiltin_apply,
        invoke_congr fun t ht => h tag _ ⟨hc, hb, htag, t, ht, rfl⟩]

end Job

section

variable {τ : Type}

/-- What becomes of the sinks of the shell while a pipeline runs. -/
structure PutsBack (e : Engine τ) (p : Pipeline) (s : Shell τ) : Prop where
  /-- However the pipeline ends, they are as before it. -/
  restored : ((p.execute e).final s).wiring = s.wiring
  /-- Each stage begins with them, and leaves them so however it ends. -/
  between : ∀ before c after j, p.stages = before ++ c :: after →
    Job.passing e before (Job.start s) = .ok () j → j.shell.wiring = s.wiring ∧
      ((Job.runStage e c after.isEmpty).final j).shell.wiring = s.wiring
  /-- The targets of a builtin are opened with the sinks of its stage in place, all or some. -/
  opened : ∀ before c after j, p.stages = before ++ c :: after →
    Job.passing e before (Job.start s) = .ok () j →
      ((Shell.openTargets c.redirection).final (j.builtinShell after.isEmpty)).wiring =
        Shell.stageWiring j.drained.isSome after.isEmpty s.wiring
  /-- The builtin is called with these and the targets of its own stage. -/
  called : ∀ before c after j tag entry, p.stages = before ++ c :: after →
    Job.passing e before (Job.start s) = .ok () j → Job.Enters c after.isEmpty j tag entry →
      Job.Sees s.wiring c after.isEmpty j entry
  /-- It is called there and nowhere else: builtins that do the same there make no difference. -/
  nowhere : ∀ (e' : Engine τ) before c after j, p.stages = before ++ c :: after →
    Job.passing e before (Job.start s) = .ok () j → e'.programs = e.programs →
    e'.chunkSize = e.chunkSize → e'.host = e.host →
    (∀ tag entry, Job.Enters c after.isEmpty j tag entry →
      e'.handler tag c.args entry = e.handler tag c.args entry) →
      Job.runStage e' c after.isEmpty j = Job.runStage e c after.isEmpty j
  /-- What is pending after the last stage finds them too. -/
  emitted : ∀ j, Job.runStages e p.stages (Job.start s) = .ok () j → j.shell.wiring = s.wiring
  /-- A redirection puts back what it found around any step, wherever that step breaks off. -/
  unwound : ∀ (r : Redirection) (step : Shell.Step τ Bool) (t : Shell τ),
    ((Shell.redirected r step).final t).wiring = t.wiring

/-- The sinks are put back for all builtins, pipelines and shells, and no stage meets those of
another. -/
theorem Pipeline.putsBack (e : Engine τ) (p : Pipeline) (s : Shell τ) : PutsBack e p s := by
  have hbegins : ∀ before j, Job.passing e before (Job.start s) = .ok () j →
      j.shell.wiring = s.wiring :=
    fun before j h => ((Job.steady_passing before).ok h).wiring
  refine ⟨wiring_execute e p s, fun before c after j _ h => ⟨hbegins _ _ h, ?_⟩,
    fun before c after j _ h => ?_, fun before c after j tag entry _ h hentry => ?_,
    fun e' before c after j _ _ => Job.runStage_congr, fun j h => ?_,
    fun r step t => Shell.sameWiring_redirected r step t⟩
  · exact (Job.steady_runStage c after.isEmpty j).wiring.trans (hbegins _ _ h)
  · rw [(Shell.keeps_openTargets c.redirection (j.builtinShell after.isEmpty)).wiring,
      ← hbegins _ _ h]
    rfl
  · rw [← hbegins _ _ h]
    exact hentry.sees
  · exact ((Job.steady_runStages p.stages).ok h).wiring

end

end PipelineShell
