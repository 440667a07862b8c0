import PipelineShell.Proofs.Survival.Calls

/-! When a stage fails in a way that nothing reports. Whatever else goes wrong in a stage is a
failure of the shell's own, or is reported by the builtin, or is no failure of the shell at all. -/

namespace PipelineShell.Job

open Shell

variable {τ α : Type} {e : Engine τ} {c : Command} {last : Bool} {j j' : Job τ}

def drained (j : Job τ) : Option String :=
  match j.pending with
  | .nothing => none
  | .text s => some s
  | .stream _ pieces => some (Text.decode (Relay.joined pieces))

def builtinShell (j : Job τ) (last : Bool) : Shell τ :=
  { j.shell with
    given := j.drained.getD ""
    captured := ""
    wiring := stageWiring j.drained.isSome last j.shell.wiring }

theorem outlet_builtinShell_ne_file (hw : j.shell.wiring = .own) (stream other : Stream) :
    (j.builtinShell last).wiring.outlet stream ≠ .file other := by
  cases stream <;> cases last <;>
    simp [builtinShell, stageWiring, Wiring.stageOutput, Wiring.outlet, hw, Wiring.own]

theorem isFull_builtinShell (hw : j.shell.wiring = .own) (stream : Stream) :
    ((j.builtinShell last).wiring.outlet stream).isFull = false := by
  cases stream <;> cases last <;>
    simp [builtinShell, stageWiring, Wiring.stageOutput, Wiring.outlet, hw, Wiring.own,
      Outlet.isFull]

/-- A stage without a name fails in a way that nothing reports: a target cannot be a path, or more
than a block of text goes to the full device. -/
inductive PassChokes (c : Command) (j : Job τ) : Prop
  | nul (h : MeetsNul j.shell.world.dir c.redirection.stderr c.redirection.stdout
      j.shell.world.tree)
  | full {err : Option BlockWriter} {w : BlockWriter} {s t : Shell τ} {text : String}
      (herr : openHeld c.redirection.stderr j.shell = .ok err s)
      (hout : openHeld c.redirection.stdout s = .ok (some w) t) (hp : j.pending = .text text)
      (hf : w.OnFull t.world.tree)
      (hmuch : t.world.tree.blockSize < (Text.encode text).size)

/-- A process fails in a way that nothing reports: a target cannot be a path, or a word holds a
NUL. -/
inductive StartChokes (c : Command) (j : Job τ) : Prop
  | nul {path : String} (hl : j.shell.locate c.name = some path)
      (h : MeetsNul j.shell.world.dir c.redirection.stdout c.redirection.stderr
        j.shell.world.tree)
  | words {path : String} {out err : Option BlockWriter} {s t : Shell τ}
      (hl : j.shell.locate c.name = some path)
      (hout : openHeld c.redirection.stdout j.shell = .ok out s)
      (herr : openHeld c.redirection.stderr s = .ok err t)
      (hw : (c.name :: c.args).all FileTree.isPath = false)

/-- A stage fails in a way that nothing reports. -/
def StageChokes (e : Engine τ) (c : Command) (last : Bool) (j : Job τ) : Prop :=
  if c.isEmpty then PassChokes c j
  else if j.shell.registry.isBuiltin c.name then
    ∃ tag, j.shell.registry.resolve c.name = .ok tag ∧ CallChokes e tag c (j.builtinShell last)
  else StartChokes c j

theorem meetsNul_iff {d d' : Destination} {s : Shell τ} :
    MeetsNul s.world.dir d d' s.world.tree ↔ Attempt.Fails Failure.Escapes (openHeld d) s ∨
      ∃ w t, openHeld d s = .ok w t ∧ Attempt.Fails Failure.Escapes (openHeld d') t := by
  unfold MeetsNul
  rw [Attempt.fails_bind, openHeld_fails_iff]
  refine or_congr_right ?_
  rw [openHeld_apply]
  cases d.openIn s.world.dir s.world.tree with
  | ok place t =>
    constructor
    · rintro ⟨_, _, ⟨rfl, rfl⟩, h⟩
      exact ⟨_, _, rfl, openHeld_fails_iff.mpr h⟩
    · rintro ⟨_, _, ⟨rfl, rfl⟩, h⟩
      exact ⟨place, t, rfl, openHeld_fails_iff.mp h⟩
  | error f t => simp

theorem openDestination_bind_fails_iff {d : Destination} {f : Option Nat → Job.Step τ α} :
    Attempt.Fails Failure.Escapes (openDestination d >>= f) j ↔
      Attempt.Fails Failure.Escapes (openHeld d) j.shell ∨ ∃ w s, openHeld d j.shell = .ok w s ∧
        Attempt.Fails Failure.Escapes (f (w.map fun _ => j.fresh)) (j.hold w s) := by
  have hopen := openDestination_apply d j
  cases hd : openHeld d j.shell with
  | error g s =>
    rw [hd] at hopen
    have hfails : Attempt.Fails Failure.Escapes (openDestination d >>= f) j ↔ g.Escapes := by
      simp [Attempt.Fails, Attempt.bind_of_error hopen]
    rw [hfails]
    simp [Attempt.Fails, hd]
  | ok w s =>
    rw [hd] at hopen
    rw [Attempt.fails_bind_of_ok hopen, or_iff_right (Attempt.not_fails_of_ok hd)]
    constructor
    · intro h
      exact ⟨w, s, rfl, h⟩
    · rintro ⟨_, _, ⟨rfl, rfl⟩, h⟩
      exact h

theorem opening_fails_iff {d d' : Destination} {f : Option Nat → Option Nat → Job.Step τ α} :
    Attempt.Fails Failure.Escapes
        (openDestination d >>= fun a => openDestination d' >>= fun b => f a b) j ↔
      MeetsNul j.shell.world.dir d d' j.shell.world.tree ∨ ∃ w s w' t,
        openHeld d j.shell = .ok w s ∧ openHeld d' s = .ok w' t ∧
        Attempt.Fails Failure.Escapes
          (f (w.map fun _ => j.fresh) (w'.map fun _ => (j.hold w s).fresh))
          ((j.hold w s).hold w' t) := by
  rw [meetsNul_iff]
  simp only [openDestination_bind_fails_iff, hold_shell]
  constructor
  · rintro (h | ⟨w, s, hd, h | ⟨w', t, hd', h⟩⟩)
    · exact .inl (.inl h)
    · exact .inl (.inr ⟨w, s, hd, h⟩)
    · exact .inr ⟨w, s, w', t, hd, hd', h⟩
  · rintro ((h | ⟨w, s, hd, h⟩) | ⟨w, s, w', t, hd, hd', h⟩)
    · exact .inl h
    · exact .inr ⟨w, s, hd, .inl h⟩
    · exact .inr ⟨w, s, hd, .inr ⟨w', t, hd', h⟩⟩

theorem onFile_fails_iff {n : Nat} {w : BlockWriter} (hw : j.file? n = some w)
    {step : BlockWriter.Writing Unit} (hstep : Attempt.Throws NoRoom step) :
    Attempt.Fails Failure.Escapes (onFile n step) j ↔
      Attempt.Fails NoRoom step (w, j.shell.world.tree) := by
  unfold Attempt.Fails
  rw [onFile_of_file? hw]
  cases hs : step (w, j.shell.world.tree) with
  | ok a p => simp
  | error f p =>
    exact ⟨fun _ => ⟨f, p, rfl, hstep _ _ _ hs⟩, fun _ => ⟨.fault f, _, rfl, nofun⟩⟩

theorem takeIn_fails_iff {place : Location} {append : Bool} {s : Shell τ} :
    Attempt.Fails Failure.Escapes (takeIn e (some j.fresh))
        (j.hold (some (.start place append)) s) ↔
      ∃ text, j.pending = .text text ∧ (BlockWriter.start place append).OnFull s.world.tree ∧
        s.world.tree.blockSize < (Text.encode text).size := by
  unfold takeIn
  rw [Attempt.fails_bind_of_ok (Attempt.get_apply _),
    Attempt.fails_bind_of_never fun _ => (quiet_setPending _).never, hold_pending]
  cases hp : j.pending with
  | nothing => simp [pour]
  | text text =>
    rw [pour, onFile_fails_iff (file?_hold ..) (BlockWriter.throws_write _),
      BlockWriter.write_start_fails_iff]
    constructor
    · exact fun h => ⟨text, rfl, h⟩
    · rintro ⟨_, ⟨rfl⟩, h⟩
      exact h
  | stream pipe pieces =>
    have hquiet : Quiet (pour e j.fresh (.stream pipe pieces)) :=
      (quiet_claim pipe .relay).bind fun _ => noted_startHelper.quiet.bind fun _ =>
        quiet_relayToFile _ _ _
    simpa using Attempt.not_fails_of_never hquiet.never _

theorem runEmpty_fails_iff : Attempt.Fails Failure.Escapes (runEmpty e c.redirection) j ↔
    PassChokes c j := by
  rw [runEmpty_eq, opening_fails_iff]
  constructor
  · rintro (h | ⟨err, s, out, t, herr, hout, h⟩)
    · exact .nul h
    · cases out with
      | none => exact (Attempt.not_fails_pure _ _ h).elim
      | some w =>
        obtain ⟨place, rfl⟩ := openHeld_eq_ok_some hout
        obtain ⟨text, hp, hf, hmuch⟩ := takeIn_fails_iff.mp h
        exact .full herr hout ((hold_pending j err s).symm.trans hp) hf hmuch
  · rintro (h | ⟨herr, hout, hp, hf, hmuch⟩)
    · exact .inl h
    · obtain ⟨place, rfl⟩ := openHeld_eq_ok_some hout
      exact .inr ⟨_, _, _, _, herr, hout,
        takeIn_fails_iff.mpr ⟨_, (hold_pending ..).trans hp, hf, hmuch⟩⟩

theorem launch_fails_iff {path : String} {out err : Option Nat} :
    Attempt.Fails Failure.Escapes (launch e c last path out err) j ↔
      (c.name :: c.args).all FileTree.isPath = false := by
  unfold launch
  cases (c.name :: c.args).all FileTree.isPath with
  | false => simpa using ⟨_, j, rfl, nofun⟩
  | true =>
    refine iff_of_false ?_ (by decide)
    simp only [Bool.not_true, Bool.false_eq_true, if_false]
    rw [Attempt.fails_bind_of_ok (Attempt.get_apply _)]
    split
    · rintro ⟨f, t, h, hf⟩
      cases h
      exact hf _ rfl
    · exact Attempt.not_fails_of_never (quiet_attend _ _ _ _ _).never j

theorem runProcess_fails_iff : Attempt.Fails Failure.Escapes (runProcess e c last) j ↔
    StartChokes c j := by
  rw [runProcess_eq, Attempt.fails_bind_of_ok (Attempt.get_apply _)]
  cases hl : j.shell.locate c.name with
  | none =>
    constructor
    · rintro ⟨f, t, h, hf⟩
      cases h
      exact (hf _ rfl).elim
    · rintro (⟨hl', _⟩ | ⟨hl', _, _, _⟩) <;> cases hl.symm.trans hl'
  | some path =>
    dsimp only
    rw [opening_fails_iff]
    constructor
    · rintro (h | ⟨out, s, err, t, hout, herr, h⟩)
      · exact .nul hl h
      · exact .words hl hout herr (launch_fails_iff.mp h)
    · rintro (⟨_, h⟩ | ⟨_, hout, herr, hw⟩)
      · exact .inl h
      · exact .inr ⟨_, _, _, _, hout, herr, launch_fails_iff.mpr hw⟩

theorem drain_eq_ok (j : Job τ) : ∃ j', drain j = .ok j.drained j' ∧ j'.shell = j.shell := by
  simp only [drain, Attempt.bind_apply, Attempt.get_apply, drained]
  cases j.pending with
  | nothing => exact ⟨j, rfl, rfl⟩
  | text s => exact ⟨j, rfl, rfl⟩
  | stream pipe pieces => exact ⟨_, rfl, rfl⟩

def emptied (j : Job τ) : Job τ :=
  { j with
    pending := match j.pending with
      | .stream _ _ => .nothing
      | p => p
    pipes := match j.pending with
      | .stream pipe _ => j.pipes.filter (· ≠ pipe)
      | _ => j.pipes
    events := match j.pending with
      | .stream pipe _ => .closed pipe :: .claimed pipe .drain :: j.events
      | _ => j.events }

theorem drain_apply (j : Job τ) : drain j = .ok j.drained j.emptied := by
  cases j with
  | mk shell pending _ _ _ _ _ _ _ _ => cases pending <;> rfl

theorem runBuiltin_apply (tag : τ) (c : Command) (last : Bool) (j : Job τ) :
    runBuiltin e tag c last j = match invoke e tag c (j.builtinShell last) with
      | .ok b u => .ok () { j.emptied with
          shell := { u with wiring := j.shell.wiring }
          pending := if last then .nothing else .text u.captured
          keepGoing := j.keepGoing && b }
      | .error f u => .error f { j.emptied with shell := { u with wiring := j.shell.wiring } } := by
  have hshell : ({ j.emptied.shell with
      given := j.drained.getD ""
      captured := ""
      wiring := stageWiring j.drained.isSome last j.emptied.shell.wiring } : Shell τ) =
        j.builtinShell last := rfl
  simp only [runBuiltin, Attempt.bind_of_ok (drain_apply j), Attempt.bind_apply,
    Attempt.modify_apply, inShell, Attempt.within, bound, hshell]
  cases invoke e tag c (j.builtinShell last) <;> rfl

theorem runBuiltin_fails_iff {tag : τ} :
    Attempt.Fails Failure.Escapes (runBuiltin e tag c last) j ↔
      Attempt.Fails Failure.Escapes (invoke e tag c) (j.builtinShell last) := by
  obtain ⟨j₁, hdrain, hshell⟩ := drain_eq_ok j
  rw [runBuiltin, Attempt.fails_bind_of_ok hdrain,
    Attempt.fails_bind_of_ok (Attempt.modify_apply _ _),
    Attempt.fails_bind_of_never fun _ => Attempt.throws_modify _, inShell, Attempt.fails_within,
    bound_fails_iff]
  simp only [hshell]
  exact Iff.rfl

theorem runStage_fails_iff (he : e.OnlyRoams) (hw : j.shell.wiring = .own) :
    Attempt.Fails Failure.Escapes (runStage e c last) j ↔ StageChokes e c last j := by
  unfold runStage StageChokes
  split
  · exact runEmpty_fails_iff
  · rw [Attempt.fails_bind_of_ok (Attempt.get_apply _)]
    dsimp only
    split
    · next hb =>
      obtain ⟨tag, htag⟩ := resolve_of_isBuiltin hb
      rw [htag]
      dsimp only
      rw [runBuiltin_fails_iff, invoke_fails_iff he (outlet_builtinShell_ne_file hw)
        (isFull_builtinShell hw)]
      simp
    · exact runProcess_fails_iff

end PipelineShell.Job
