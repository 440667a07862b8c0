import PipelineShell.Proofs.Conduct.Stages

/-! What a pipeline leaves alone. A stage works on the files, on the texts that are read and written
and on where they lead, and the rest is up to the builtins: what they all leave alone, a whole
pipeline does. -/

namespace PipelineShell

namespace Shell

variable {τ α : Type} {s t : Shell τ}

/-- Nothing has changed but what stages work on, and the input is as it was. -/
structure WorksOn (s t : Shell τ) : Prop where
  same : t = { s with
    world := { s.world with tree := t.world.tree }
    given := t.given
    output := t.output
    errors := t.errors
    captured := t.captured
    waiting := t.waiting
    outFile := t.outFile
    errFile := t.errFile
    wiring := t.wiring }

instance : IsPreorder (Shell τ) WorksOn where
  refl _ := ⟨rfl⟩
  trans s t u h h' := by
    refine ⟨?_⟩
    rw [h'.same, h.same]

theorem WorksOn.history (h : WorksOn s t) : t.history = s.history := by rw [h.same]

theorem WorksOn.input (h : WorksOn s t) : t.input = s.input := by rw [h.same]

theorem WorksOn.behind (h : WorksOn s t) : t.behind = s.behind := by rw [h.same]

theorem FilesOnly.worksOn (h : FilesOnly s t) : WorksOn s t := by
  refine ⟨?_⟩
  rw [h.same]

theorem worksOn_writeTo (o : Outlet) (text : String) :
    Attempt.Keeps WorksOn (writeTo o text : Shell.Step τ Unit) := by
  cases o with
  | file stream =>
    exact (keeps_onFile stream (TextWriter.keeps_write text)).mono fun _ _ => FilesOnly.worksOn
  | full atOnce =>
    intro s
    obtain ⟨waiting, hfinal⟩ := exists_waiting atOnce text s
    exact hfinal ▸ ⟨rfl⟩
  | _ => exact Attempt.keeps_modify fun s => ⟨rfl⟩

theorem worksOn_flush (o : Outlet) : Attempt.Keeps WorksOn (flush o : Shell.Step τ Unit) :=
  (keeps_flush o).mono fun _ _ => FilesOnly.worksOn

theorem worksOn_write (text : String) : Attempt.Keeps WorksOn (write text : Shell.Step τ Unit) :=
  Attempt.keeps_get fun s => worksOn_writeTo _ text s

theorem worksOn_printLine (stream : Stream) (text : String) :
    Attempt.Keeps WorksOn (printLine stream text : Shell.Step τ Unit) :=
  Attempt.keeps_get fun s => ((worksOn_writeTo _ text).bind fun _ => worksOn_writeTo _ "\n") s

theorem worksOn_complain (text : String) :
    Attempt.Keeps WorksOn (complain text : Shell.Step τ Unit) :=
  worksOn_printLine .stderr text

section

variable {R : Shell τ → Shell τ → Prop} [IsPreorder (Shell τ) R] {e : Engine τ}
  (hwork : ∀ s t, WorksOn s t → R s t)

include hwork

theorem keeps_bound {step : Shell.Step τ α} (h : Attempt.Keeps R step)
    (change : Wiring → Wiring) : Attempt.Keeps R (bound change step) := by
  intro s
  rw [final_bound]
  have hbefore : R s { s with wiring := change s.wiring } := hwork _ _ ⟨rfl⟩
  exact trans_of R (trans_of R hbefore (h _)) (hwork _ _ ⟨rfl⟩)

theorem keeps_redirected {step : Shell.Step τ α} (h : Attempt.Keeps R step) (r : Redirection) :
    Attempt.Keeps R (redirected r step) := by
  have hfiles : ∀ s t, FilesOnly s t → R s t := fun s t hs => hwork s t hs.worksOn
  rw [redirected_eq]
  exact ((keeps_openDestination _ _).mono hfiles).bind fun _ =>
    (((keeps_openDestination _ _).mono hfiles).bind fun _ =>
      (keeps_bound hwork h _).ensure ((keeps_closeDestination _ _).mono hfiles)).ensure
        ((keeps_closeDestination _ _).mono hfiles)

theorem keeps_invoke {tag : τ} {c : Command} (h : Attempt.Keeps R (e.handler tag c.args)) :
    Attempt.Keeps R (invoke e tag c) := by
  refine keeps_redirected hwork (Attempt.Keeps.ensure (h.handle fun f y hy => ?_)
    (Attempt.keeps_get fun s => hwork _ _ (worksOn_flush _ s))) _
  obtain ⟨-, rfl⟩ := reportAs_eq_some.mp hy
  exact ((worksOn_complain _).mono hwork).bind fun _ => Attempt.keeps_pure _

end

end Shell

namespace Job

open Shell

variable {τ α : Type} {e : Engine τ}

/-- The shells of two jobs stand in a relation. -/
def Along (R : Shell τ → Shell τ → Prop) (j j' : Job τ) : Prop :=
  R j.shell j'.shell

instance (R : Shell τ → Shell τ → Prop) [IsPreorder (Shell τ) R] : IsPreorder (Job τ) (Along R) where
  refl j := refl_of R j.shell
  trans _ _ _ := trans_of R

theorem Along.mono {R S : Shell τ → Shell τ → Prop} (h : ∀ s t, R s t → S s t) (j j' : Job τ) :
    Along R j j' → Along S j j' :=
  h _ _

theorem along_of_shell {R : Shell τ → Shell τ → Prop} [IsPreorder (Shell τ) R] {j j' : Job τ}
    (h : j'.shell = j.shell) : Along R j j' := by
  unfold Along
  rw [h]
  exact refl_of R j.shell

theorem along_inShell {R : Shell τ → Shell τ → Prop} {step : Shell.Step τ α}
    (h : Attempt.Keeps R step) : Attempt.Keeps (Along R) (inShell step) := by
  intro j
  have hs := h j.shell
  unfold Attempt.final inShell Attempt.within at *
  cases hstep : step j.shell <;> (rw [hstep] at hs; exact hs)

theorem worksOn_openDestination (d : Destination) :
    Attempt.Keeps (Along WorksOn) (openDestination d : Job.Step τ (Option Nat)) := by
  intro j
  have hs := keeps_openHeld d j.shell
  unfold Attempt.final at *
  rw [openDestination_apply]
  cases hopen : openHeld d j.shell with
  | ok w s =>
    rw [hopen] at hs
    have hheld : WorksOn j.shell (j.hold w s).shell := (hold_shell j w s).symm ▸ hs.worksOn
    exact hheld
  | error f s =>
    rw [hopen] at hs
    exact hs.worksOn

theorem worksOn_onFile (n : Nat) (step : BlockWriter.Writing Unit) :
    Attempt.Keeps (Along WorksOn) (onFile n step : Job.Step τ Unit) := by
  intro j
  cases hf : j.file? n with
  | none =>
    simp only [Attempt.final, onFile, hf]
    exact along_of_shell rfl
  | some w =>
    rw [final_onFile hf]
    exact ⟨rfl⟩

theorem Noted.along {R : Shell τ → Shell τ → Prop} [IsPreorder (Shell τ) R] {x : Job.Step τ α}
    (h : Noted x) : Attempt.Keeps (Along R) x :=
  h.keeps fun _ _ hj => along_of_shell hj.shell

theorem worksOn_claim (pipe : Nat) (c : Consumer) :
    Attempt.Keeps (Along WorksOn) (claim pipe c : Job.Step τ Unit) :=
  fun _ => along_of_shell rfl

theorem worksOn_setPending (p : Pending) :
    Attempt.Keeps (Along WorksOn) (setPending p : Job.Step τ Unit) :=
  fun _ => along_of_shell rfl

theorem worksOn_putAll (n : Nat) (pieces : List ByteArray) :
    Attempt.Keeps (Along WorksOn) (putAll n pieces : Job.Step τ (Option Nat)) := by
  induction pieces with
  | nil => exact Attempt.keeps_pure _
  | cons piece pieces ih =>
    refine (Attempt.keeps_outcome (worksOn_onFile n _)).bind fun result => ?_
    cases result with
    | ok _ => exact ih
    | error _ => exact Attempt.keeps_pure _

theorem worksOn_relayToFile (n pipe : Nat) (pieces : List ByteArray) :
    Attempt.Keeps (Along WorksOn) (relayToFile e n pipe pieces) := by
  refine (worksOn_putAll n _).bind fun left => ?_
  cases left with
  | none => exact (noted_closePipe pipe).along
  | some left => exact fun _ => along_of_shell rfl

theorem worksOn_drain : Attempt.Keeps (Along WorksOn) (drain : Job.Step τ (Option String)) := by
  refine Attempt.keeps_get fun j => ?_
  cases j.pending <;> exact along_of_shell rfl

theorem worksOn_writeOutput (out err : Option Nat) (output : Output) :
    Attempt.Keeps (Along WorksOn) (writeOutput out err output : Job.Step τ Unit) := by
  induction output with
  | nil => exact Attempt.keeps_pure _
  | cons p output ih =>
    obtain ⟨_ | _, bytes⟩ := p <;> cases out <;> cases err <;>
      first | exact (Attempt.keeps_discard (worksOn_putAll _ _)).bind fun _ => ih | exact ih

theorem worksOn_receive (stream : Stream) (pipe : Option Nat) (pieces : List ByteArray) :
    Attempt.Keeps (Along WorksOn) (receive stream pipe pieces : Job.Step τ Unit) := by
  refine Attempt.Keeps.bind (Attempt.keeps_modify fun j => ⟨?_⟩) fun _ => (noted_serve pipe).along
  dsimp only
  cases j.shell.wiring.outlet stream <;> rfl

theorem worksOn_handOn (last : Bool) (out pipe : Option Nat) (pieces : List ByteArray) :
    Attempt.Keeps (Along WorksOn) (handOn last out pipe pieces : Job.Step τ Unit) := by
  cases last with
  | true =>
    cases out with
    | none => exact (worksOn_receive _ _ _).bind fun _ => worksOn_setPending _
    | some n => exact worksOn_setPending _
  | false =>
    cases pipe with
    | none => exact worksOn_setPending _
    | some n => exact fun _ => along_of_shell rfl

theorem worksOn_runEmpty (r : Redirection) : Attempt.Keeps (Along WorksOn) (runEmpty e r) := by
  rw [runEmpty_eq]
  refine (worksOn_openDestination _).bind fun _ => (worksOn_openDestination _).bind fun out => ?_
  cases out with
  | none => exact Attempt.keeps_pure _
  | some n =>
    refine Attempt.keeps_get fun j => ?_
    refine (Attempt.Keeps.bind ?_ fun _ => worksOn_setPending _) j
    cases j.pending with
    | nothing => exact Attempt.keeps_pure _
    | text s => exact worksOn_onFile _ _
    | stream pipe pieces =>
      exact (worksOn_claim _ _).bind fun _ => noted_startHelper.along.bind fun _ =>
        worksOn_relayToFile _ _ _

theorem worksOn_emit : Attempt.Keeps (Along WorksOn) (emit : Job.Step τ Unit) := by
  rw [emit_eq]
  refine Attempt.keeps_get fun j => ?_
  generalize j.shell.wiring.stdout = o
  cases j.pending with
  | nothing => exact Attempt.keeps_pure _ j
  | text s =>
    exact ((along_inShell ((worksOn_writeTo o s).bind fun _ => worksOn_flush o)).bind fun _ =>
      worksOn_setPending _) j
  | stream pipe pieces =>
    exact ((worksOn_claim pipe .pump).bind fun _ => noted_startHelper.along.bind fun _ =>
      (Attempt.keeps_discard (Attempt.keeps_outcome (along_inShell (worksOn_writeTo o _)))).bind
      fun _ => (noted_closePipe pipe).along) j

theorem worksOn_shutAll (fs : List (Nat × BlockWriter)) :
    Attempt.Keeps (Along WorksOn) (shutAll fs : Job.Step τ Unit) := by
  induction fs with
  | nil => exact fun _ => along_of_shell rfl
  | cons f fs ih =>
    exact ((worksOn_onFile f.1 _).ensure fun _ => along_of_shell rfl).ensure ih

theorem worksOn_finish (room : Nat) :
    Attempt.Keeps (Along WorksOn) (finish room : Job.Step τ Unit) := by
  intro j
  unfold Attempt.final
  by_cases hstuck : j.Stuck room
  · obtain ⟨before, -, hfinish⟩ := finish_of_stuck hstuck
    rw [hfinish]
    exact along_of_shell j.dropped_shell
  · have hstopped : Along WorksOn j j.stopped := along_of_shell j.stopped_shell
    rw [finish_of_not_stuck hstuck]
    exact trans_of (Along WorksOn) hstopped (worksOn_shutAll j.files j.stopped)

theorem worksOn_attended (last : Bool) (out err : Option Nat) (ends : Ends) (output : Output) :
    Attempt.Keeps (Along WorksOn) (do
      writeOutput out err output
      if err.isNone then receive .stderr ends.errors (output.pieces .stderr)
      handOn last out ends.output (output.pieces .stdout) : Job.Step τ Unit) := by
  refine (worksOn_writeOutput out err output).bind fun _ => ?_
  cases err with
  | none => exact (worksOn_receive _ _ _).bind fun _ => worksOn_handOn _ _ _ _
  | some n => exact worksOn_handOn _ _ _ _

section

variable {R : Shell τ → Shell τ → Prop} [IsPreorder (Shell τ) R]
  (hwork : ∀ s t, WorksOn s t → R s t) (hdraw : ∀ (s : Shell τ) (amount : Nat), R s (drawn s amount))

include hwork hdraw

omit hwork in
theorem along_feed (input : Option Nat) (amount : Nat) :
    Attempt.Keeps (Along R) (feed input amount : Job.Step τ Unit) := by
  refine Attempt.keeps_get fun j => ?_
  have hserve : Attempt.Keeps (Along R) (serve input : Job.Step τ Unit) := (noted_serve input).along
  cases j.pending with
  | nothing =>
    have hread : Along R j { j with shell := drawn j.shell amount } := hdraw j.shell amount
    exact trans_of (Along R) hread (hserve _)
  | text s =>
    have hset : Attempt.Keeps (Along R) (setPending .nothing : Job.Step τ Unit) :=
      fun _ => along_of_shell rfl
    exact (hset.bind fun _ => hserve) j
  | stream pipe pieces =>
    have hclaim : Attempt.Keeps (Along R) (claim pipe .relay : Job.Step τ Unit) :=
      fun _ => along_of_shell rfl
    exact (hclaim.bind fun _ => hserve.bind fun _ => (noted_closePipe pipe).along) j

theorem along_attend (last : Bool) (out err : Option Nat) (amount : Nat) (output : Output) :
    Attempt.Keeps (Along R) (attend last out err amount output : Job.Step τ Unit) :=
  (noted_spawn last out err).along.bind fun ends => (along_feed hdraw _ _).bind fun _ =>
    (worksOn_attended last out err ends output).mono (Along.mono hwork)

theorem along_runProcess (c : Command) (last : Bool) :
    Attempt.Keeps (Along R) (runProcess e c last) := by
  have hon := Along.mono hwork
  rw [runProcess_eq]
  refine Attempt.keeps_get fun j => ?_
  cases j.shell.locate c.name with
  | none => exact Attempt.keeps_throw _ j
  | some path =>
    refine (((worksOn_openDestination _).mono hon).bind fun out =>
      ((worksOn_openDestination _).mono hon).bind fun err => ?_) j
    unfold launch
    cases (c.name :: c.args).all FileTree.isPath with
    | false => exact Attempt.keeps_throw _
    | true =>
      refine Attempt.keeps_get fun j => ?_
      dsimp only
      split
      · exact Attempt.keeps_throw _ j
      · exact along_attend hwork hdraw last out err _ _ j

omit hdraw in
theorem along_runBuiltin {tag : τ} {c : Command} (h : Attempt.Keeps R (e.handler tag c.args))
    (last : Bool) : Attempt.Keeps (Along R) (runBuiltin e tag c last) := by
  refine (worksOn_drain.mono (Along.mono hwork)).bind fun given => Attempt.Keeps.bind
    (Attempt.keeps_modify fun j => hwork _ _ ⟨rfl⟩) fun _ =>
    (along_inShell (keeps_bound hwork (keeps_invoke hwork h) _)).bind fun _ => ?_
  exact Attempt.keeps_modify fun j => along_of_shell rfl

variable (he : ∀ tag args, Attempt.Keeps R (e.handler tag args))

include he

/-- What every builtin leaves alone, so does every stage. -/
theorem along_runStage (c : Command) (last : Bool) :
    Attempt.Keeps (Along R) (runStage e c last) := by
  unfold runStage
  split
  · exact (worksOn_runEmpty _).mono (Along.mono hwork)
  · refine Attempt.keeps_get fun j => ?_
    dsimp only
    split
    · split
      · exact along_runBuiltin hwork (he _ _) last j
      · exact Attempt.keeps_throw _ j
    · exact along_runProcess hwork hdraw c last j

theorem along_runStages (cs : List Command) : Attempt.Keeps (Along R) (runStages e cs) := by
  induction cs with
  | nil => exact Attempt.keeps_pure _
  | cons c cs ih => exact (along_runStage hwork hdraw he c _).bind fun _ => ih

theorem along_passing (cs : List Command) : Attempt.Keeps (Along R) (passing e cs) := by
  induction cs with
  | nil => exact Attempt.keeps_pure _
  | cons c cs ih => exact (along_runStage hwork hdraw he c _).bind fun _ => ih

theorem along_run (p : Pipeline) : Attempt.Keeps (Along R) (run e p) :=
  ((along_runStages hwork hdraw he p.stages).bind fun _ =>
    worksOn_emit.mono (Along.mono hwork)).ensure ((worksOn_finish _).mono (Along.mono hwork))

end

end Job

/-- What every builtin leaves alone, so does a pipeline, however it ends. -/
theorem Pipeline.keeps_execute {τ : Type} {e : Engine τ} {R : Shell τ → Shell τ → Prop}
    [IsPreorder (Shell τ) R] (hwork : ∀ s t, Shell.WorksOn s t → R s t)
    (hdraw : ∀ (s : Shell τ) (amount : Nat), R s (Job.drawn s amount))
    (he : ∀ tag args, Attempt.Keeps R (e.handler tag args)) (p : Pipeline) :
    Attempt.Keeps R (p.execute e) := by
  intro s
  have hrun := Job.along_run hwork hdraw he p (Job.start s)
  unfold Attempt.final Pipeline.execute at *
  cases p.isIdle with
  | true => exact refl_of R s
  | false => cases h : Job.run e p (Job.start s) <;> (rw [h] at hrun; exact hrun)

end PipelineShell
