import PipelineShell.Proofs.Abort.Execute
import PipelineShell.Proofs.Copying.Writers
import PipelineShell.Proofs.Lag.Closings
import PipelineShell.Proofs.Relays.Sizes
import PipelineShell.Proofs.Transparency.Blanks
import PipelineShell.Proofs.Transparency.Stages

/-! A process that begins a line. What it writes goes on to the stage after it or comes to the
target of its output. Nothing is left to be let out then, so that the job ends as it is. -/

namespace PipelineShell

theorem Relay.joined_cons_eq (a : ByteArray) (pieces : List ByteArray) :
    joined (a :: pieces) = a ++ joined pieces := by
  rw [joined, List.foldl_cons, ByteArray.empty_append, Console.foldl_append]

theorem Relay.joined_copy_eq (host : Host) (size : Int) (pieces : List ByteArray) :
    joined (copy host size pieces) = if Granted host size then joined pieces else .empty := by
  split
  · next h => exact joined_copy h pieces
  · next h =>
    rw [copy_of_not_granted h]
    rfl

/-- The shell after a process has read its input and has written its errors there. -/
def Shell.attended {τ : Type} (s : Shell τ) (amount : Nat) (output : Output) : Shell τ :=
  { Job.drawn s amount with
    errors := (Job.drawn s amount).errors.receive (output.pieces .stderr) }

namespace Job

open BlockWriter Relay

variable {τ : Type} {e : Engine τ} {c : Command} {last : Bool} {j : Job τ} {n : Nat}
  {w : BlockWriter} {output : Output}

/-- A file of the job that can take whatever comes. -/
structure Takes (j : Job τ) (n : Nat) (w : BlockWriter) : Prop where
  numbered : j.Numbered
  file : j.file? n = some w
  room : ¬w.OnFull j.shell.world.tree

/-- The job after such a file has let out bytes. -/
def release (j : Job τ) (n : Nat) (w : BlockWriter) (bytes : ByteArray) : Job τ :=
  j.setFile n (w.moved bytes) (w.released bytes j.shell.world.tree)

theorem release_release (a b : ByteArray) :
    (j.release n w a).release n (w.moved a) b = j.release n w (a ++ b) := by
  have htree : (j.release n w a).shell.world.tree = w.released a j.shell.world.tree := rfl
  rw [release, htree, release, setFile_setFile, moved_moved, released_released]
  rfl

namespace Takes

variable (h : j.Takes n w)

include h

theorem release (bytes : ByteArray) : (j.release n w bytes).Takes n (w.moved bytes) where
  numbered := h.numbered.setFile n _ _
  file := file?_setFile h.file _ _
  room := by
    intro hfull
    have hlater : w.OnFull (w.released bytes j.shell.world.tree) := by
      simpa [OnFull, Job.release, setFile, setTree] using hfull
    exact h.room (onFull_released.mp hlater)

theorem release_empty : j.release n w .empty = j := by
  have hmoved : w.moved .empty = w := moved_of_isEmpty w rfl
  have htree : w.released .empty j.shell.world.tree = j.shell.world.tree := if_pos rfl
  rw [Job.release, hmoved, htree, h.numbered.setFile_self h.file]

theorem putAll (pieces : List ByteArray) :
    putAll n pieces j = .ok none (j.release n w (joined pieces)) := by
  induction pieces generalizing j w with
  | nil =>
    have hsame := h.release_empty
    exact congrArg (EStateM.Result.ok none) hsame.symm
  | cons piece pieces ih =>
    rw [putAll_cons_apply, onFile_of_file? h.file, put_eq (.inr h.room), joined_cons_eq,
      ← release_release]
    exact ih (h.release piece)

theorem writeOutput (output : Output) : writeOutput (some n) none output j =
    .ok () (j.release n w (joined (output.pieces .stdout))) := by
  induction output generalizing j w with
  | nil =>
    have hsame := h.release_empty
    exact congrArg (EStateM.Result.ok ()) hsame.symm
  | cons piece output ih =>
    obtain ⟨stream, bytes⟩ := piece
    cases stream with
    | stdout =>
      have hpieces : Output.pieces ((.stdout, bytes) :: output) .stdout =
          bytes :: Output.pieces output .stdout := rfl
      have hput := h.putAll [bytes]
      rw [joined_singleton] at hput
      rw [hpieces, joined_cons_eq, ← release_release]
      have hdiscard : discard (Job.putAll n [bytes]) j = .ok () (j.release n w bytes) := by
        rw [Attempt.discard_apply, hput]
      exact (Attempt.bind_of_ok hdiscard _).trans (ih (h.release bytes))
    | stderr => exact ih h

end Takes

/-- What its files have taken has been let out. -/
def HoldsNothing (j : Job τ) : Prop :=
  ∀ f ∈ j.files, f.2.held.isEmpty = true

theorem holdsNothing_start (s : Shell τ) : (start s).HoldsNothing := nofun

theorem HoldsNothing.of_files {j' : Job τ} (h : j.HoldsNothing) (hfiles : j'.files = j.files) :
    j'.HoldsNothing :=
  fun f hf => h f (hfiles ▸ hf)

theorem HoldsNothing.hold_start (h : j.HoldsNothing) (place : Location) (append : Bool)
    (s : Shell τ) : (j.hold (some (.start place append)) s).HoldsNothing :=
  List.forall_mem_cons.mpr ⟨rfl, h⟩

theorem HoldsNothing.release (h : j.HoldsNothing) (hfile : j.Takes n w) (bytes : ByteArray) :
    (j.release n w bytes).HoldsNothing := by
  intro f hf
  obtain ⟨g, hg, rfl⟩ := List.mem_map.mp hf
  split
  · have hmem := hfile.numbered.file?_eq_some_iff.mp hfile.file
    rw [moved_held]
    exact h _ hmem
  · exact h g hg

theorem exists_finish_of_holdsNothing {room : Nat} (hj : j.Numbered) (hstuck : ¬j.Stuck room)
    (h : j.HoldsNothing) :
    ∃ j', finish room j = .ok () j' ∧ j'.shell = j.shell ∧ j'.keepGoing = j.keepGoing := by
  have hclosing : FileTree.closing (j.files.map (·.2)) j.shell.world.tree =
      .ok () j.shell.world.tree :=
    FileTree.closing_of_isEmpty (List.forall_mem_map.mpr h) _
  rw [finish_eq hj hstuck, hclosing]
  exact ⟨_, rfl, by simp [shut, setTree], by simp [shut, setTree]⟩

/-- A line whose stages have run writes what is left, and that is all if no file holds anything. -/
theorem execute_of_holdsNothing {p : Pipeline} {s : Shell τ} (hp : p.isIdle = false)
    (h : runStages e p.stages (start s) = .ok () j) (hw : s.wiring = .own)
    (hheld : j.HoldsNothing) (hunread : j.unread = []) : p.execute e s =
      .ok j.keepGoing { j.shell with output := j.shell.output.write j.leftText } := by
  have hsteady := (steady_runStages p.stages).ok h
  have haccounted := accounts_runStages (e := e) p.stages [] (start s) (accounted_start s)
  rw [Attempt.final_of_ok h] at haccounted
  obtain ⟨j₁, hemit, hshell, hfiles, hgo, hstuck⟩ := exists_emit_eq (hsteady.wiring.trans hw)
  have hnumbered := (orderly_emit.ok hemit).numbered (hsteady.numbered (.start s))
  obtain ⟨j₂, hfinish, hshell', hgo'⟩ := exists_finish_of_holdsNothing hnumbered
    (fun h => haccounted.not_stuck hunread ((hstuck e.host.pipeRoom).mp h))
    (hheld.of_files hfiles)
  have hrun : run e p (start s) = .ok () j₂ :=
    Attempt.ensure_eq_ok.mpr ⟨j₁, (Attempt.bind_of_ok h _).trans hemit, hfinish⟩
  rw [Pipeline.execute_of_not_idle hp, hrun, ← hgo, ← hgo', ← hshell, ← hshell']

theorem writeOutput_none (output : Output) :
    (Job.writeOutput none none output : Job.Step τ Unit) = pure () := by
  induction output with
  | nil => rfl
  | cons piece output ih =>
    obtain ⟨stream, bytes⟩ := piece
    cases stream <;> exact ih

def received (s : Shell τ) (stream : Stream) (pieces : List ByteArray) : Shell τ :=
  match stream with
  | .stdout => { s with output := s.output.receive pieces }
  | .stderr => { s with errors := s.errors.receive pieces }

theorem exists_receive (stream : Stream) (hw : j.shell.wiring = .own) (pipe : Option Nat)
    (pieces : List ByteArray) : ∃ j', receive stream pipe pieces j = .ok () j' ∧
      Aside { j with shell := received j.shell stream pieces } j' := by
  obtain ⟨_, j', hserve, haside⟩ :=
    noted_serve pipe { j with shell := received j.shell stream pieces }
  refine ⟨j', ?_, haside⟩
  rw [← hserve, receive, Attempt.bind_of_ok (Attempt.modify_apply _ j), hw]
  cases stream <;> rfl

theorem exists_attend (hp : j.pending = .nothing) (last : Bool) (out : Option Nat) (amount : Nat)
    (output : Output) : ∃ (ends : Ends) (j' : Job τ),
      Aside { j with shell := drawn j.shell amount } j' ∧
      (out = none → last = false → ends.output.isSome = true) ∧
      attend last out none amount output j = (Job.writeOutput out none output >>= fun _ =>
        receive .stderr ends.errors (output.pieces .stderr) >>= fun _ =>
          handOn last out ends.output (output.pieces .stdout)) j' := by
  obtain ⟨ends, j₁, hspawn, haside⟩ := noted_spawn last out none j
  have hpipe := isSome_of_spawn hspawn
  have hpending : j₁.pending = .nothing := haside.pending.trans hp
  obtain ⟨j₂, hfeed, hfed⟩ := exists_feed ends.input amount j₁
  rw [served, if_pos hpending, haside.shell] at hfed
  refine ⟨ends, j₂, ⟨hfed.shell, hfed.pending.trans hp.symm, hfed.keepGoing.trans haside.keepGoing,
    hfed.files.trans haside.files, hfed.unread.trans haside.unread,
    Nat.le_trans haside.fresh hfed.fresh⟩, fun hout hlast => ?_, ?_⟩
  · rw [hpipe, hout, hlast]
    rfl
  · rw [attend, Attempt.bind_of_ok hspawn, Attempt.bind_of_ok hfeed]
    rfl

section

variable (s : Shell τ) (amount : Nat) (output : Output)

theorem wiring_drawn : (drawn s amount).wiring = s.wiring := by
  unfold drawn
  cases s.behind <;> rfl

theorem world_drawn : (drawn s amount).world = s.world := by
  unfold drawn
  cases s.behind <;> rfl

theorem wiring_attended : (s.attended amount output).wiring = s.wiring :=
  wiring_drawn s amount

theorem world_attended : (s.attended amount output).world = s.world :=
  world_drawn s amount

theorem registry_attended : (s.attended amount output).registry = s.registry := by
  unfold Shell.attended drawn
  cases s.behind <;> rfl

theorem output_attended : (s.attended amount output).output = s.output := by
  unfold Shell.attended drawn
  cases s.behind <;> rfl

end

theorem exists_attend_passing (hp : j.pending = .nothing) (hw : j.shell.wiring = .own)
    (amount : Nat) (output : Output) : ∃ j' pipe,
      attend false none none amount output j = .ok () j' ∧
      Aside { j with
        shell := j.shell.attended amount output
        pending := .stream pipe (output.pieces .stdout) } j' := by
  obtain ⟨ends, j₁, haside, hpipe, hattend⟩ := exists_attend hp false none amount output
  obtain ⟨pipe, hends⟩ := Option.isSome_iff_exists.mp (hpipe rfl rfl)
  have hw₁ : j₁.shell.wiring = .own := by rw [haside.shell, wiring_drawn, hw]
  obtain ⟨j₂, herr, hgot⟩ := exists_receive .stderr hw₁ ends.errors (output.pieces .stderr)
  rw [hattend, writeOutput_none, pure_bind, Attempt.bind_of_ok herr, hends]
  refine ⟨_, pipe, rfl, ?_, rfl, hgot.keepGoing.trans haside.keepGoing,
    hgot.files.trans haside.files, hgot.unread.trans haside.unread,
    Nat.le_trans haside.fresh hgot.fresh⟩
  exact hgot.shell.trans (by rw [haside.shell]; rfl)

theorem exists_attend_last (hp : j.pending = .nothing) (hw : j.shell.wiring = .own)
    (amount : Nat) (output : Output) : ∃ j', attend true none none amount output j = .ok () j' ∧
      Aside { j with
        shell := received (j.shell.attended amount output) .stdout (output.pieces .stdout) } j' := by
  obtain ⟨ends, j₁, haside, -, hattend⟩ := exists_attend hp true none amount output
  have hw₁ : j₁.shell.wiring = .own := by rw [haside.shell, wiring_drawn, hw]
  obtain ⟨j₂, herr, hgot⟩ := exists_receive .stderr hw₁ ends.errors (output.pieces .stderr)
  have hw₂ : j₂.shell.wiring = .own := by rw [hgot.shell]; exact hw₁
  obtain ⟨j₃, hout, hgot'⟩ := exists_receive .stdout hw₂ ends.output (output.pieces .stdout)
  rw [hattend, writeOutput_none, pure_bind, Attempt.bind_of_ok herr]
  refine ⟨{ j₃ with pending := .nothing }, Attempt.bind_of_ok hout _, ?_, hp.symm,
    (hgot'.keepGoing.trans hgot.keepGoing).trans haside.keepGoing,
    (hgot'.files.trans hgot.files).trans haside.files,
    (hgot'.unread.trans hgot.unread).trans haside.unread,
    Nat.le_trans haside.fresh (Nat.le_trans hgot.fresh hgot'.fresh)⟩
  refine hgot'.shell.trans ?_
  dsimp only
  rw [hgot.shell, haside.shell]
  rfl

theorem exists_attend_into (hp : j.pending = .nothing) (hw : j.shell.wiring = .own)
    (hfile : j.Takes n w) (amount : Nat) (output : Output) : ∃ j',
      attend true (some n) none amount output j = .ok () j' ∧
      Aside { j.release n w (joined (output.pieces .stdout)) with
        shell := (j.shell.attended amount output).setTree
          (w.released (joined (output.pieces .stdout)) j.shell.world.tree) } j' := by
  obtain ⟨ends, j₁, haside, -, hattend⟩ := exists_attend hp true (some n) amount output
  have htree : j₁.shell.world = j.shell.world := by rw [haside.shell]; exact world_drawn _ _
  have hfile₁ : j₁.Takes n w := by
    refine ⟨⟨?_, fun f hf => ?_⟩, ?_, ?_⟩
    · rw [haside.files]
      exact hfile.numbered.nodup
    · rw [haside.files] at hf
      exact Nat.lt_of_lt_of_le (hfile.numbered.below f hf) haside.fresh
    · rw [file?, haside.files]
      exact hfile.file
    · rw [htree]
      exact hfile.room
  have hw₁ : (j₁.release n w (joined (output.pieces .stdout))).shell.wiring = .own := by
    have hsame : (j₁.release n w (joined (output.pieces .stdout))).shell.wiring =
      j₁.shell.wiring := rfl
    rw [hsame, haside.shell, wiring_drawn, hw]
  obtain ⟨j₂, herr, hgot⟩ := exists_receive .stderr hw₁ ends.errors (output.pieces .stderr)
  rw [hattend, Attempt.bind_of_ok (hfile₁.writeOutput output), Attempt.bind_of_ok herr]
  have hfiles : (j₁.release n w (joined (output.pieces .stdout))).files =
      (j.release n w (joined (output.pieces .stdout))).files := by
    simp only [Job.release, setFile, haside.files]
  refine ⟨{ j₂ with pending := .nothing }, rfl, ?_, hp.symm, hgot.keepGoing.trans haside.keepGoing,
    hgot.files.trans hfiles, hgot.unread.trans haside.unread,
    Nat.le_trans haside.fresh hgot.fresh⟩
  refine hgot.shell.trans ?_
  have hreleased : (j₁.release n w (joined (output.pieces .stdout))).shell =
      j₁.shell.setTree (w.released (joined (output.pieces .stdout)) j.shell.world.tree) := by
    rw [← htree]
    rfl
  rw [hreleased, haside.shell]
  rfl

theorem runStage_of_launching {path : String} {out err : Option Nat} {j₁ j₂ : Job τ}
    (hc : c.isEmpty = false) (hb : j.shell.registry.isBuiltin c.name = false)
    (hpath : j.shell.locate c.name = some path)
    (hwords : (c.name :: c.args).all FileTree.isPath = true)
    (hout : openDestination c.redirection.stdout j = .ok out j₁)
    (herr : openDestination c.redirection.stderr j₁ = .ok err j₂)
    (hlaunch : launching e c last path out err j₂ = .ok output) :
    runStage e c last j = attend last out err
      (e.host.draws (j₂.launchFor e c last path out err)) output j₂ := by
  rw [runStage_of_program hc hb, runProcess_eq, Attempt.bind_of_ok (Attempt.get_apply j), hpath]
  dsimp only
  rw [Attempt.bind_of_ok hout, Attempt.bind_of_ok herr, launch_apply hwords, hlaunch]

end Job

end PipelineShell
