import PipelineShell.Line
import PipelineShell.Proofs.Survival.Stages

/-! The failures that a line can end in. Apart from those of the shell's own there are two: a path
or a word that holds a NUL, and a file without room. Besides, a line may never end. -/

namespace PipelineShell

namespace Shell

variable {τ α : Type}

/-- The failures that a stage can end in: those of the shell's own, which it reports, and two
others. -/
def Known (f : Failure) : Prop :=
  (∃ g, f = .shell g) ∨ f = .fault .nulByte ∨ Full f

theorem known_targetFailure (path : String) (f : Fault) : Known (targetFailure path f) := by
  cases f with
  | refused r => exact .inl ⟨_, rfl⟩
  | nulByte => exact .inr (.inl rfl)

theorem known_openDestination (stream : Stream) (d : Destination) :
    Attempt.Throws Known (openDestination stream d : Shell.Step τ Unit) := by
  intro s f t h
  rw [openDestination_apply] at h
  cases hin : d.openIn s.world.dir s.world.tree with
  | ok place t' =>
    rw [hin] at h
    cases h
  | error g t' =>
    rw [hin] at h
    cases h
    exact known_targetFailure _ g

theorem known_bound {change : Wiring → Wiring} {step : Shell.Step τ α}
    (h : Attempt.Throws Known step) : Attempt.Throws Known (bound change step) := by
  intro s f t hs
  obtain ⟨_, hstep, _⟩ := bound_eq_error.mp hs
  exact h _ _ _ hstep

theorem known_reported {x : Shell.Step τ Bool} (name : String) :
    Attempt.Throws Known (x.handle (reportAs name)) := by
  intro s f t h
  rcases Attempt.handle_eq_error.mp h with ⟨_, hf⟩ | ⟨g, u, y, _, hy, hyu⟩
  · cases f <;> simp [reportAs] at hf
    exact .inl ⟨_, rfl⟩
  · obtain ⟨-, rfl⟩ := reportAs_eq_some.mp hy
    have hthrows : Full f := ((throws_complain (name ++ ": " ++ g.message)).bind
      fun _ => Attempt.throws_pure true) _ _ _ hyu
    exact .inr (.inr hthrows)

theorem known_invoke (e : Engine τ) (tag : τ) (c : Command) :
    Attempt.Throws Known (invoke e tag c) := by
  have hfull : ∀ f, Full f → Known f := fun f h => .inr (.inr h)
  have hflush : Attempt.Throws Full (do flush (← get).wiring.stdout : Shell.Step τ Unit) :=
    Attempt.throws_get.bind fun _ => throws_flush _
  rw [invoke, redirected_eq]
  refine (known_openDestination _ _).bind fun _ => ((known_openDestination _ _).bind fun _ =>
    (known_bound ((known_reported _).ensure (hflush.mono hfull))).ensure ?_).ensure ?_
  · exact (throws_closeDestination _ _).mono hfull
  · exact (throws_closeDestination _ _).mono hfull

theorem known_openHeld (d : Destination) :
    Attempt.Throws Known (openHeld d : Shell.Step τ (Option BlockWriter)) := by
  intro s f t h
  rw [openHeld_apply] at h
  cases hin : d.openIn s.world.dir s.world.tree with
  | ok place t' =>
    rw [hin] at h
    cases h
  | error g t' =>
    rw [hin] at h
    cases h
    exact known_targetFailure _ g

end Shell

namespace Job

open Shell

variable {τ α : Type} {e : Engine τ}

theorem Quiet.throws {P : Failure → Prop} {x : Job.Step τ α} (h : Quiet x) : Attempt.Throws P x :=
  h.never.mono fun _ => False.elim

theorem known_openDestination (d : Destination) :
    Attempt.Throws Known (openDestination d : Job.Step τ (Option Nat)) := by
  intro j f j' h
  rw [openDestination_apply] at h
  cases hopen : openHeld d j.shell with
  | ok w s =>
    rw [hopen] at h
    cases h
  | error g s =>
    rw [hopen] at h
    cases h
    exact known_openHeld d _ _ _ hopen

theorem throws_onFile (n : Nat) {step : BlockWriter.Writing Unit}
    (hstep : Attempt.Throws NoRoom step) :
    Attempt.Throws Full (onFile n step : Job.Step τ Unit) := by
  intro j e j' h
  cases hf : j.file? n with
  | none =>
    simp only [onFile, hf] at h
    cases h
  | some w =>
    rw [onFile_of_file? hf] at h
    cases hs : step (w, j.shell.world.tree) with
    | ok a p =>
      rw [hs] at h
      cases h
    | error f p =>
      rw [hs] at h
      cases h
      exact congrArg Failure.fault (hstep _ _ _ hs)

theorem throws_shutAll (fs : List (Nat × BlockWriter)) :
    Attempt.Throws Full (shutAll fs : Job.Step τ Unit) := by
  induction fs with
  | nil => exact Attempt.throws_modify _
  | cons f fs ih =>
    exact ((throws_onFile f.1 BlockWriter.throws_flush).ensure (Attempt.throws_modify _)).ensure ih

theorem known_takeIn (out : Option Nat) : Attempt.Throws Known (takeIn e out) := by
  cases out with
  | none => exact Attempt.throws_pure _
  | some n =>
    refine Attempt.throws_get.bind fun j => Attempt.Throws.bind ?_ fun _ => Attempt.throws_modify _
    cases j.pending with
    | nothing => exact Attempt.throws_pure _
    | text s => exact (throws_onFile n (BlockWriter.throws_write _)).mono fun _ h => .inr (.inr h)
    | stream pipe pieces =>
      exact ((quiet_claim pipe .relay).bind fun _ => noted_startHelper.quiet.bind fun _ =>
        quiet_relayToFile n pipe _).throws

theorem known_runEmpty (r : Redirection) : Attempt.Throws Known (runEmpty e r) := by
  rw [runEmpty_eq]
  exact (known_openDestination _).bind fun _ => (known_openDestination _).bind known_takeIn

theorem known_runBuiltin (tag : τ) (c : Command) (last : Bool) :
    Attempt.Throws Known (runBuiltin e tag c last) :=
  quiet_drain.throws.bind fun _ => Attempt.Throws.bind (Attempt.throws_modify _) fun _ =>
    (known_bound (known_invoke e tag c)).within.bind fun _ => Attempt.throws_modify _

theorem known_launch (c : Command) (last : Bool) (path : String) (out err : Option Nat) :
    Attempt.Throws Known (launch e c last path out err) := by
  unfold launch
  cases (c.name :: c.args).all FileTree.isPath with
  | false => exact Attempt.throws_throw (.inr (.inl rfl))
  | true =>
    refine Attempt.throws_get.bind fun j => ?_
    dsimp only
    split
    · exact Attempt.throws_throw (.inl ⟨_, rfl⟩)
    · exact (quiet_attend _ _ _ _ _).throws

theorem known_runProcess (c : Command) (last : Bool) :
    Attempt.Throws Known (runProcess e c last) := by
  rw [runProcess_eq]
  refine Attempt.throws_get.bind fun j => ?_
  cases j.shell.locate c.name with
  | none => exact Attempt.throws_throw (.inl ⟨_, rfl⟩)
  | some path =>
    exact (known_openDestination _).bind fun _ => (known_openDestination _).bind fun _ =>
      known_launch c last path _ _

theorem known_runStage (c : Command) (last : Bool) : Attempt.Throws Known (runStage e c last) := by
  unfold runStage
  split
  · exact known_runEmpty _
  · refine Attempt.throws_get.bind fun j => ?_
    dsimp only
    split
    · next hb =>
      obtain ⟨tag, htag⟩ := resolve_of_isBuiltin hb
      rw [htag]
      exact known_runBuiltin tag c last
    · exact known_runProcess c last

theorem known_runStages (cs : List Command) : Attempt.Throws Known (runStages e cs) := by
  induction cs with
  | nil => exact Attempt.throws_pure _
  | cons c cs ih => exact (known_runStage c _).bind fun _ => ih

theorem throws_emit : Attempt.Throws Full (emit : Job.Step τ Unit) := by
  rw [emit_eq]
  refine Attempt.throws_get.bind fun j => ?_
  generalize j.shell.wiring.stdout = o
  cases j.pending with
  | nothing => exact Attempt.throws_pure _
  | text s =>
    exact ((throws_writeTo o s).bind fun _ => throws_flush o).within.bind fun _ =>
      Attempt.throws_modify _
  | stream pipe pieces =>
    exact (quiet_claim pipe .pump).throws.bind fun _ => noted_startHelper.quiet.throws.bind fun _ =>
      (Attempt.throws_outcome _).discard.bind fun _ => (noted_closePipe pipe).quiet.throws

theorem throws_finish (room : Nat) :
    Attempt.Throws (fun f => f = .endless ∨ Full f) (finish room : Job.Step τ Unit) := by
  intro j f j' h
  by_cases hstuck : j.Stuck room
  · obtain ⟨before, -, hfinish⟩ := finish_of_stuck hstuck
    rw [hfinish] at h
    cases h
    exact .inl rfl
  · rw [finish_of_not_stuck hstuck] at h
    exact .inr (throws_shutAll _ _ _ _ h)

theorem escapes_finish (room : Nat) :
    Attempt.Throws Failure.Escapes (finish room : Job.Step τ Unit) :=
  (throws_finish room).mono fun _ hf => hf.elim (fun h => h ▸ nofun) Full.escapes

theorem known_run (p : Pipeline) : Attempt.Throws (fun f => f = .endless ∨ Known f) (run e p) :=
  Attempt.Throws.ensure (Attempt.Throws.mono ((known_runStages _).bind fun _ =>
    throws_emit.mono fun _ h => .inr (.inr h)) fun _ => .inr)
    ((throws_finish _).mono fun _ h => h.imp_right fun h => .inr (.inr h))

end Job

theorem Pipeline.known_execute {τ : Type} (e : Engine τ) (p : Pipeline) :
    Attempt.Throws (fun f => f = .endless ∨ Shell.Known f) (p.execute e) := by
  intro s f t h
  unfold Pipeline.execute at h
  split at h
  · cases h
  · cases hrun : Job.run e p (Job.start s) with
    | ok a j =>
      rw [hrun] at h
      cases h
    | error g j =>
      rw [hrun] at h
      cases h
      exact Job.known_run p _ _ _ hrun

end PipelineShell
