import PipelineShell.Proofs.Orderly

/-! The shell's own output belongs to the last stage. The stages before it keep what they write for
the stage after, and every stage leaves the wiring as it was, whatever its builtin does. -/

namespace PipelineShell

namespace Shell

variable {τ α : Type} {s t : Shell τ}

theorem heard_of_unheard {w : Wiring} {o : Outlet} (h : ∀ stream, w.outlet stream ≠ o)
    (said : List (Stream × String)) : heard w o said = "" := by
  induction said with
  | nil => rfl
  | cons p said ih => simp [heard, h p.1, ih]

/-- Some texts have been written, to wherever the wiring leads. -/
def Speaks (s t : Shell τ) : Prop :=
  ∃ said, Told s said t

instance : IsPreorder (Shell τ) Speaks where
  refl _ := ⟨[], .nothing rfl rfl rfl rfl rfl⟩
  trans _ _ _ h h' := by
    obtain ⟨said, h⟩ := h
    obtain ⟨more, h'⟩ := h'
    exact ⟨said ++ more, h.trans h'⟩

theorem Speaks.output (h : Speaks s t) (hw : ∀ stream, s.wiring.outlet stream ≠ .output) :
    t.output = s.output := by
  obtain ⟨said, h⟩ := h
  rw [h.output, heard_of_unheard hw, Console.write_empty]

theorem Speaks.captured (h : Speaks s t) (hw : ∀ stream, s.wiring.outlet stream ≠ .captured) :
    t.captured = s.captured := by
  obtain ⟨said, h⟩ := h
  rw [h.captured, heard_of_unheard hw, String.append_empty]

theorem Reaches.speaks (h : Reaches Around s t) : Speaks s t := by
  obtain ⟨said, h⟩ := h
  exact ⟨said, h.told fun _ _ h => h⟩

theorem FilesOnly.speaks (h : FilesOnly s t) : Speaks s t :=
  ⟨[], .nothing h.wiring h.registry h.output h.errors h.captured⟩

/-- What a builtin does between the opening and the closing of its targets. -/
def called (e : Engine τ) (tag : τ) (c : Command) : Shell.Step τ Bool :=
  ((e.handler tag c.args).handle (reportAs c.name)).ensure do flush (← get).wiring.stdout

theorem speaks_called {e : Engine τ} (he : e.GoesByWiring) (tag : τ) (c : Command) :
    Attempt.Keeps Speaks (called e tag c) := by
  refine Attempt.Keeps.ensure (Attempt.Keeps.handle ?_ fun f y hy => ?_) ?_
  · exact fun s => Reaches.speaks (he tag c.args s)
  · obtain ⟨-, rfl⟩ := reportAs_eq_some.mp hy
    exact ((keeps_complain _).mono fun _ _ => Reaches.speaks).bind fun _ => Attempt.keeps_pure _
  · exact Attempt.keeps_get fun s => (keeps_flush _ s).speaks

/-- The wiring and the table of builtins are as before, and so is the shell's own output if no
stream leads there. -/
structure Withholds (s t : Shell τ) : Prop where
  wiring : t.wiring = s.wiring
  registry : t.registry = s.registry
  output : (∀ stream, s.wiring.outlet stream ≠ .output) → t.output = s.output

instance : IsPreorder (Shell τ) Withholds where
  refl _ := ⟨rfl, rfl, fun _ => rfl⟩
  trans _ _ _ h h' := by
    refine ⟨h'.wiring.trans h.wiring, h'.registry.trans h.registry, fun hw => ?_⟩
    rw [h'.output (h.wiring ▸ hw), h.output hw]

theorem Speaks.withholds (h : Speaks s t) : Withholds s t := by
  obtain ⟨said, htold⟩ := id h
  exact ⟨htold.wiring, htold.registry, h.output⟩

theorem FilesOnly.withholds (h : FilesOnly s t) : Withholds s t :=
  h.speaks.withholds

theorem withholds_bound {step : Shell.Step τ α} (h : Attempt.Keeps Withholds step)
    (change : Wiring → Wiring) (s : Shell τ)
    (hw : (∀ stream, s.wiring.outlet stream ≠ .output) →
      ∀ stream, (change s.wiring).outlet stream ≠ .output) :
    Withholds s ((bound change step).final s) := by
  rw [final_bound]
  exact ⟨rfl, (h _).registry, fun hs => (h _).output (hw hs)⟩

theorem withholds_invoke {e : Engine τ} (he : e.GoesByWiring) (tag : τ) (c : Command) :
    Attempt.Keeps Withholds (invoke e tag c) := by
  have hopen : ∀ stream d, Attempt.Keeps Withholds (openDestination stream d : Shell.Step τ Unit) :=
    fun stream d s => (keeps_openDestination stream d s).withholds
  have hclose : ∀ stream d,
      Attempt.Keeps Withholds (closeDestination stream d : Shell.Step τ Unit) :=
    fun stream d s => (keeps_closeDestination stream d s).withholds
  have hcalled : Attempt.Keeps Withholds (called e tag c) :=
    (speaks_called he tag c).mono fun _ _ => Speaks.withholds
  rw [invoke, redirected_eq]
  refine (hopen _ _).bind fun _ => ((hopen _ _).bind fun _ =>
    Attempt.Keeps.ensure (fun s => withholds_bound hcalled _ s fun hs stream => ?_)
      (hclose _ _)).ensure (hclose _ _)
  have hplain := hs stream
  cases stream <;> (simp only [rewire, Wiring.outlet] at hplain ⊢; split <;> simp [hplain])

end Shell

namespace Job

open Shell

variable {τ α : Type} {e : Engine τ} {j j' : Job τ}

/-- The wiring and the table of builtins are as before, and so is the shell's own output if the
shell is wired to it. -/
structure Withholds (j j' : Job τ) : Prop where
  wiring : j'.shell.wiring = j.shell.wiring
  registry : j'.shell.registry = j.shell.registry
  output : j.shell.wiring = .own → j'.shell.output = j.shell.output

instance : IsPreorder (Job τ) Withholds where
  refl _ := ⟨rfl, rfl, fun _ => rfl⟩
  trans _ _ _ h h' :=
    ⟨h'.wiring.trans h.wiring, h'.registry.trans h.registry,
      fun hw => (h'.output (h.wiring.trans hw)).trans (h.output hw)⟩

theorem withholds_of_shell (h : j'.shell = j.shell) : Withholds j j' :=
  ⟨by rw [h], by rw [h], fun _ => by rw [h]⟩

theorem withholds_of_filesOnly (h : FilesOnly j.shell j'.shell) : Withholds j j' :=
  ⟨h.wiring, h.registry, fun _ => h.output⟩

theorem Noted.withholds {x : Job.Step τ α} (h : Noted x) : Attempt.Keeps Withholds x :=
  h.keeps fun _ _ hj => withholds_of_shell hj.shell

theorem withholds_claim (pipe : Nat) (consumer : Consumer) :
    Attempt.Keeps Withholds (claim pipe consumer : Job.Step τ Unit) :=
  fun _ => withholds_of_shell rfl

theorem withholds_setPending (p : Pending) :
    Attempt.Keeps Withholds (setPending p : Job.Step τ Unit) :=
  fun _ => withholds_of_shell rfl

theorem withholds_openDestination (d : Destination) :
    Attempt.Keeps Withholds (openDestination d : Job.Step τ (Option Nat)) := by
  intro j
  have hs := keeps_openHeld d j.shell
  unfold Attempt.final at *
  rw [openDestination_apply]
  cases hopen : openHeld d j.shell with
  | ok w s =>
    rw [hopen] at hs
    exact withholds_of_filesOnly ((hold_shell j w s).symm ▸ hs)
  | error f s =>
    rw [hopen] at hs
    exact withholds_of_filesOnly hs

theorem withholds_onFile (n : Nat) (step : BlockWriter.Writing Unit) :
    Attempt.Keeps Withholds (onFile n step : Job.Step τ Unit) := by
  intro j
  cases hf : j.file? n with
  | none =>
    simp only [Attempt.final, onFile, hf]
    exact refl_of Withholds j
  | some w =>
    rw [final_onFile hf]
    exact ⟨rfl, rfl, fun _ => rfl⟩

theorem withholds_putAll (n : Nat) (pieces : List ByteArray) :
    Attempt.Keeps Withholds (putAll n pieces : Job.Step τ (Option Nat)) := by
  induction pieces with
  | nil => exact Attempt.keeps_pure _
  | cons piece pieces ih =>
    refine (Attempt.keeps_outcome (withholds_onFile n _)).bind fun result => ?_
    cases result with
    | ok _ => exact ih
    | error _ => exact Attempt.keeps_pure _

theorem withholds_relayToFile (n pipe : Nat) (pieces : List ByteArray) :
    Attempt.Keeps Withholds (relayToFile e n pipe pieces) := by
  refine (withholds_putAll n _).bind fun left => ?_
  cases left with
  | none => exact (noted_closePipe pipe).withholds
  | some left => exact fun _ => withholds_of_shell rfl

theorem withholds_writeOutput (out err : Option Nat) (output : Output) :
    Attempt.Keeps Withholds (writeOutput out err output : Job.Step τ Unit) := by
  induction output with
  | nil => exact Attempt.keeps_pure _
  | cons p output ih =>
    obtain ⟨_ | _, bytes⟩ := p <;> cases out <;> cases err <;>
      first | exact (Attempt.keeps_discard (withholds_putAll _ _)).bind fun _ => ih | exact ih

theorem withholds_drain : Attempt.Keeps Withholds (drain : Job.Step τ (Option String)) := by
  refine Attempt.keeps_get fun j => ?_
  cases j.pending with
  | nothing => exact refl_of Withholds j
  | text s => exact refl_of Withholds j
  | stream pipe pieces => exact withholds_of_shell rfl

theorem withholds_feed (input : Option Nat) (amount : Nat) :
    Attempt.Keeps Withholds (feed input amount : Job.Step τ Unit) := by
  refine Attempt.keeps_get fun j => ?_
  have hserve : Attempt.Keeps Withholds (serve input : Job.Step τ Unit) :=
    (noted_serve input).withholds
  cases j.pending with
  | nothing =>
    refine (Attempt.Keeps.bind (Attempt.keeps_modify fun j => ⟨?_, ?_, fun _ => ?_⟩)
      fun _ => hserve) j <;> (unfold drawn; cases j.shell.behind <;> rfl)
  | text s => exact ((withholds_setPending _).bind fun _ => hserve) j
  | stream pipe pieces =>
    exact ((withholds_claim pipe .relay).bind fun _ => hserve.bind fun _ =>
      (noted_closePipe pipe).withholds) j

theorem withholds_receive_stderr (pipe : Option Nat) (pieces : List ByteArray) :
    Attempt.Keeps Withholds (receive .stderr pipe pieces : Job.Step τ Unit) := by
  refine Attempt.Keeps.bind (Attempt.keeps_modify fun j => ⟨?_, ?_, fun hw => ?_⟩) fun _ =>
    (noted_serve pipe).withholds
  · dsimp only
    cases j.shell.wiring.outlet .stderr <;> rfl
  · dsimp only
    cases j.shell.wiring.outlet .stderr <;> rfl
  · have herrors : j.shell.wiring.outlet .stderr = .errors := by rw [hw]; rfl
    simp only [herrors]

theorem withholds_handOn (out pipe : Option Nat) (pieces : List ByteArray) :
    Attempt.Keeps Withholds (handOn false out pipe pieces : Job.Step τ Unit) := by
  cases pipe with
  | none => exact withholds_setPending _
  | some n => exact fun _ => withholds_of_shell rfl

theorem withholds_attend (out err : Option Nat) (amount : Nat) (output : Output) :
    Attempt.Keeps Withholds (attend false out err amount output : Job.Step τ Unit) := by
  refine (noted_spawn false out err).withholds.bind fun ends => (withholds_feed _ _).bind fun _ =>
    (withholds_writeOutput out err output).bind fun _ => ?_
  cases err with
  | none => exact (withholds_receive_stderr _ _).bind fun _ => withholds_handOn out _ _
  | some n => exact withholds_handOn out _ _

theorem withholds_runEmpty (r : Redirection) : Attempt.Keeps Withholds (runEmpty e r) := by
  rw [runEmpty_eq]
  refine (withholds_openDestination _).bind fun _ =>
    (withholds_openDestination _).bind fun out => ?_
  cases out with
  | none => exact Attempt.keeps_pure _
  | some n =>
    refine Attempt.keeps_get fun j => ?_
    refine (Attempt.Keeps.bind ?_ fun _ => withholds_setPending _) j
    cases j.pending with
    | nothing => exact Attempt.keeps_pure _
    | text s => exact withholds_onFile _ _
    | stream pipe pieces =>
      exact (withholds_claim _ _).bind fun _ => noted_startHelper.withholds.bind fun _ =>
        withholds_relayToFile _ _ _

theorem withholds_runProcess (c : Command) : Attempt.Keeps Withholds (runProcess e c false) := by
  rw [runProcess_eq]
  refine Attempt.keeps_get fun j => ?_
  cases j.shell.locate c.name with
  | none => exact Attempt.keeps_throw _ j
  | some path =>
    refine ((withholds_openDestination _).bind fun out =>
      (withholds_openDestination _).bind fun err => ?_) j
    unfold launch
    cases (c.name :: c.args).all FileTree.isPath with
    | false => exact Attempt.keeps_throw _
    | true =>
      refine Attempt.keeps_get fun j => ?_
      dsimp only
      split
      · exact Attempt.keeps_throw _ j
      · exact withholds_attend _ _ _ _ j

theorem withholds_runBuiltin (he : e.GoesByWiring) (tag : τ) (c : Command) :
    Attempt.Keeps Withholds (runBuiltin e tag c false) := by
  refine withholds_drain.bind fun given => Attempt.Keeps.bind
    (Attempt.keeps_modify fun j => ⟨rfl, rfl, fun _ => rfl⟩) fun _ =>
    Attempt.Keeps.bind (fun j => ?_) fun _ => Attempt.keeps_modify fun j => withholds_of_shell rfl
  have hinvoke := withholds_invoke he tag c
    { j.shell with wiring := stageWiring given.isSome false j.shell.wiring }
  have hfinal : (inShell (bound (stageWiring given.isSome false) (invoke e tag c))).final j =
      { j with
        shell := (bound (stageWiring given.isSome false) (invoke e tag c)).final j.shell } := by
    unfold Attempt.final inShell Attempt.within
    cases bound (stageWiring given.isSome false) (invoke e tag c) j.shell <;> rfl
  rw [hfinal, final_bound]
  refine ⟨rfl, hinvoke.registry, fun hw => hinvoke.output fun stream => ?_⟩
  cases stream <;> simp [stageWiring, Wiring.stageOutput, Wiring.outlet, hw, Wiring.own]

theorem withholds_runStage (he : e.GoesByWiring) (c : Command) :
    Attempt.Keeps Withholds (runStage e c false) := by
  unfold runStage
  split
  · exact withholds_runEmpty _
  · refine Attempt.keeps_get fun j => ?_
    dsimp only
    split
    · split
      · exact withholds_runBuiltin he _ c j
      · exact Attempt.keeps_throw _ j
    · exact withholds_runProcess c j

/-- The wiring is as before, and the open files keep numbers of their own. -/
structure Steady (j j' : Job τ) : Prop where
  wiring : j'.shell.wiring = j.shell.wiring
  numbered : j.Numbered → j'.Numbered

instance : IsPreorder (Job τ) Steady where
  refl _ := ⟨rfl, id⟩
  trans _ _ _ h h' := ⟨h'.wiring.trans h.wiring, h'.numbered ∘ h.numbered⟩

theorem Orderly.steady (h : Orderly j j') : Steady j j' :=
  ⟨h.rests.wiring, h.numbered⟩

/-- Whatever a builtin does to the wiring, it is put back. -/
theorem steady_runBuiltin (tag : τ) (c : Command) (last : Bool) :
    Attempt.Keeps Steady (runBuiltin e tag c last) := by
  refine (quiet_drain.orderly.mono fun _ _ => Orderly.steady).bind fun given =>
    Attempt.Keeps.bind (Attempt.keeps_modify fun j => ⟨rfl, fun hj => ⟨hj.nodup, hj.below⟩⟩)
    fun _ => Attempt.Keeps.bind (fun j => ?_) fun _ =>
    Attempt.keeps_modify fun j => ⟨rfl, fun hj => ⟨hj.nodup, hj.below⟩⟩
  unfold Attempt.final inShell Attempt.within bound
  cases invoke e tag c { j.shell with wiring := stageWiring given.isSome last j.shell.wiring } <;>
    exact ⟨rfl, fun hj => ⟨hj.nodup, hj.below⟩⟩

theorem steady_runStage (c : Command) (last : Bool) :
    Attempt.Keeps Steady (runStage e c last) := by
  unfold runStage
  split
  · exact (orderly_runEmpty _).mono fun _ _ => Orderly.steady
  · refine Attempt.keeps_get fun j => ?_
    dsimp only
    split
    · split
      · exact steady_runBuiltin _ c last j
      · exact Attempt.keeps_throw _ j
    · exact (orderly_runProcess c last j).steady

/-- Some stages, with another stage after them. -/
def passing (e : Engine τ) : List Command → Job.Step τ Unit
  | [] => pure ()
  | c :: cs => do
    runStage e c false
    passing e cs

theorem withholds_passing (he : e.GoesByWiring) (cs : List Command) :
    Attempt.Keeps Withholds (passing e cs) := by
  induction cs with
  | nil => exact Attempt.keeps_pure _
  | cons c cs ih => exact (withholds_runStage he c).bind fun _ => ih

theorem steady_passing (cs : List Command) : Attempt.Keeps Steady (passing e cs) := by
  induction cs with
  | nil => exact Attempt.keeps_pure _
  | cons c cs ih => exact (steady_runStage c false).bind fun _ => ih

theorem steady_runStages (cs : List Command) : Attempt.Keeps Steady (runStages e cs) := by
  induction cs with
  | nil => exact Attempt.keeps_pure _
  | cons c cs ih => exact (steady_runStage c cs.isEmpty).bind fun _ => ih

theorem steady_run (p : Pipeline) : Attempt.Keeps Steady (run e p) :=
  ((steady_runStages p.stages).bind fun _ => orderly_emit.mono fun _ _ => Orderly.steady).ensure
    ((orderly_finish _).mono fun _ _ => Orderly.steady)

theorem runStages_append_cons (before after : List Command) (c : Command) :
    runStages e (before ++ c :: after) =
      passing e before >>= fun _ => runStage e c after.isEmpty >>= fun _ => runStages e after := by
  induction before with
  | nil => rfl
  | cons b before ih =>
    have hmore : (before ++ c :: after).isEmpty = false := by cases before <;> rfl
    rw [List.cons_append, runStages, hmore, ih, passing, bind_assoc]

end Job

theorem Pipeline.wiring_execute {τ : Type} (e : Engine τ) (p : Pipeline) (s : Shell τ) :
    ((p.execute e).final s).wiring = s.wiring := by
  have hrun := (Job.steady_run (e := e) p (Job.start s)).wiring
  unfold Attempt.final Pipeline.execute at *
  cases p.isIdle with
  | true => rfl
  | false => cases h : Job.run e p (Job.start s) <;> (rw [h] at hrun; exact hrun)

end PipelineShell
