import PipelineShell.Proofs.Conduct.Stages
import PipelineShell.Proofs.Debts

/-! What no step of a job looks at, but for the calls of builtins: the history of the shell, and
whether the shell goes on. Under another history and another answer each step does the same and
leaves both as they are. Most steps do not look at what is left unread either. -/

namespace PipelineShell

namespace Attempt

variable {ε ε' σ ρ α β : Type} {g : σ → σ}

/-- The change makes no difference to the attempt, and it is there afterwards as before. -/
def Overlooks (g : σ → σ) (x : Attempt ε σ α) : Prop :=
  ∀ s, x (g s) = match x s with
    | .ok a t => .ok a (g t)
    | .error e t => .error e (g t)

theorem overlooks_pure (a : α) : Overlooks g (pure a : Attempt ε σ α) := fun _ => rfl

theorem overlooks_throw (e : ε) : Overlooks g (throw e : Attempt ε σ α) := fun _ => rfl

theorem overlooks_modify {f : σ → σ} (h : ∀ s, f (g s) = g (f s)) :
    Overlooks g (modify f : Attempt ε σ PUnit) := by
  intro s
  simp only [modify_apply, h]

theorem overlooks_get {f : σ → Attempt ε σ α} (hsame : ∀ s, f (g s) = f s)
    (hf : ∀ s, Overlooks g (f s)) : Overlooks g (get >>= f) := by
  intro s
  change f (g s) (g s) = _
  rw [hsame, hf s s]
  rfl

theorem Overlooks.bind {x : Attempt ε σ α} {f : α → Attempt ε σ β} (hx : Overlooks g x)
    (hf : ∀ a, Overlooks g (f a)) : Overlooks g (x >>= f) := by
  intro s
  rw [bind_apply, bind_apply, hx s]
  cases x s with
  | ok a t => exact hf a t
  | error e t => rfl

theorem Overlooks.ensure {x : Attempt ε σ α} {ending : Attempt ε σ Unit} (hx : Overlooks g x)
    (hend : Overlooks g ending) : Overlooks g (x.ensure ending) := by
  intro s
  unfold Attempt.ensure
  rw [hx s]
  cases x s with
  | ok a t =>
    dsimp only
    rw [hend t]
    cases ending t <;> rfl
  | error e t =>
    dsimp only
    rw [hend t]
    cases ending t <;> rfl

theorem Overlooks.outcome {x : Attempt ε σ α} (hx : Overlooks g x) :
    Overlooks g (x.outcome : Attempt ε' σ (Except ε α)) := by
  intro s
  unfold Attempt.outcome
  rw [hx s]
  cases x s <;> rfl

theorem Overlooks.discard {x : Attempt ε σ α} (hx : Overlooks g x) :
    Overlooks g (discard x : Attempt ε σ PUnit) := by
  intro s
  rw [discard_apply, discard_apply, hx s]
  cases x s <;> rfl

theorem Overlooks.within {get : σ → ρ} {put : ρ → σ → σ} {k : ρ → ρ} {x : Attempt ε ρ α}
    (hx : Overlooks k x) (hget : ∀ s, get (g s) = k (get s))
    (hput : ∀ r s, put (k r) (g s) = g (put r s)) : Overlooks g (x.within get put) := by
  intro s
  unfold Attempt.within
  rw [hget, hx (get s)]
  cases x (get s) <;> simp only [hput]

/-- A state that has the change already has it in the end. -/
theorem Overlooks.final {x : Attempt ε σ α} (hx : Overlooks g x) {s : σ} (hs : g s = s) :
    g (x.final s) = x.final s := by
  have h := hx s
  rw [hs] at h
  unfold Attempt.final
  cases hx' : x s with
  | ok a t =>
    rw [hx'] at h
    exact (EStateM.Result.ok.inj h).2.symm
  | error e t =>
    rw [hx'] at h
    exact (EStateM.Result.error.inj h).2.symm

end Attempt

open Attempt

namespace Shell

variable {τ : Type}

def retell (h : History) (s : Shell τ) : Shell τ :=
  { s with history := h }

variable {h : History}

theorem overlooks_onFile (stream : Stream) (step : TextWriter.Writing Unit) :
    Overlooks (retell h) (onFile stream step : Shell.Step τ Unit) := by
  intro s
  have hfile : (retell h s).file stream = s.file stream := by cases stream <;> rfl
  have htree : (retell h s).world.tree = s.world.tree := rfl
  cases hf : s.file stream with
  | none => rw [onFile_of_none hf, onFile_of_none (hfile.trans hf)]
  | some w =>
    rw [onFile_of_some hf, onFile_of_some (hfile.trans hf), htree]
    cases step (w, s.world.tree) <;> cases stream <;> rfl

theorem overlooks_flush (o : Outlet) : Overlooks (retell h) (flush o : Shell.Step τ Unit) := by
  cases o with
  | file stream => exact overlooks_onFile stream _
  | full atOnce =>
    refine overlooks_get (fun _ => rfl) fun s => ?_
    cases s.waiting.isEmpty <;> exact fun _ => rfl
  | _ => exact overlooks_pure _

theorem overlooks_writeTo (o : Outlet) (text : String) :
    Overlooks (retell h) (writeTo o text : Shell.Step τ Unit) := by
  cases o with
  | file stream => exact overlooks_onFile stream _
  | full atOnce =>
    intro s
    simp only [writeTo_full_apply]
    cases atOnce && !text.isEmpty <;> rfl
  | _ => exact overlooks_modify fun _ => rfl

theorem overlooks_openTarget (path : String) (append : Bool) :
    Overlooks (retell h) (openTarget path append : Shell.Step τ Location) := by
  intro s
  have hworld : (retell h s).world = s.world := rfl
  unfold openTarget
  rw [hworld]
  cases FileTree.openTarget s.world.dir path append s.world.tree <;> rfl

end Shell

namespace Job

open Shell

variable {τ α : Type} {e : Engine τ}

/-- The job under another history, with another answer whether the shell goes on, and with more or
less left unread. -/
def recast (goesOn : Bool) (h : History) (left : List (Nat × Nat) → List (Nat × Nat)) (j : Job τ) :
    Job τ :=
  { j with keepGoing := goesOn, shell := j.shell.retell h, unread := left j.unread }

variable {goesOn : Bool} {h : History} {left : List (Nat × Nat) → List (Nat × Nat)}

theorem overlooks_inShell {step : Shell.Step τ α} (hstep : Overlooks (Shell.retell h) step) :
    Overlooks (recast goesOn h left) (inShell step) :=
  hstep.within (fun _ => rfl) fun _ _ => rfl

theorem overlooks_note (event : Event) :
    Overlooks (recast goesOn h left) (note event : Job.Step τ Unit) :=
  overlooks_modify fun _ => rfl

theorem overlooks_setPending (p : Pending) :
    Overlooks (recast goesOn h left) (setPending p : Job.Step τ Unit) :=
  overlooks_modify fun _ => rfl

theorem overlooks_startHelper : Overlooks (recast goesOn h left) (startHelper : Job.Step τ Unit) :=
  fun _ => rfl

theorem overlooks_closePipe (pipe : Nat) :
    Overlooks (recast goesOn h left) (closePipe pipe : Job.Step τ Unit) :=
  fun _ => rfl

theorem overlooks_claim (pipe : Nat) (c : Consumer) :
    Overlooks (recast goesOn h left) (claim pipe c : Job.Step τ Unit) :=
  fun _ => rfl

theorem overlooks_openDestination (d : Destination) :
    Overlooks (recast goesOn h left) (openDestination d : Job.Step τ (Option Nat)) := by
  unfold openDestination
  cases d.target with
  | none => exact overlooks_pure _
  | some path =>
    refine Overlooks.bind ?_ fun _ => overlooks_pure _
    exact (overlooks_inShell (overlooks_openTarget path _)).bind fun _ => fun _ => rfl

theorem overlooks_onFile (n : Nat) (step : BlockWriter.Writing Unit) :
    Overlooks (recast goesOn h left) (onFile n step : Job.Step τ Unit) := by
  intro j
  have hfile : (recast goesOn h left j).file? n = j.file? n := rfl
  have htree : (recast goesOn h left j).shell.world.tree = j.shell.world.tree := rfl
  unfold onFile
  rw [hfile, htree]
  cases j.file? n with
  | none => rfl
  | some w =>
    dsimp only
    cases step (w, j.shell.world.tree) <;> rfl

theorem overlooks_putAll (file : Nat) (pieces : List ByteArray) :
    Overlooks (recast goesOn h left) (putAll file pieces : Job.Step τ (Option Nat)) := by
  induction pieces with
  | nil => exact overlooks_pure _
  | cons piece pieces ih =>
    refine (overlooks_onFile file (BlockWriter.put piece)).outcome.bind fun result => ?_
    cases result with
    | ok _ => exact ih
    | error _ => exact overlooks_pure _

theorem overlooks_relayToFile (file pipe : Nat) (pieces : List ByteArray) :
    Overlooks (recast goesOn h id) (relayToFile e file pipe pieces) := by
  refine (overlooks_putAll file _).bind fun left => ?_
  cases left <;> exact fun _ => rfl

theorem overlooks_writeOutput (out err : Option Nat) (output : Output) :
    Overlooks (recast goesOn h left) (writeOutput out err output : Job.Step τ Unit) := by
  induction output with
  | nil => exact overlooks_pure _
  | cons p output ih =>
    obtain ⟨_ | _, bytes⟩ := p <;> cases out <;> cases err <;>
      first | exact (overlooks_putAll _ _).discard.bind fun _ => ih | exact ih

theorem overlooks_runEmpty (r : Redirection) : Overlooks (recast goesOn h id) (runEmpty e r) := by
  rw [runEmpty_eq]
  refine (overlooks_openDestination _).bind fun _ =>
    (overlooks_openDestination _).bind fun out => ?_
  cases out with
  | none => exact overlooks_pure _
  | some n =>
    refine overlooks_get (fun _ => rfl) fun j => Overlooks.bind ?_ fun _ => overlooks_setPending _
    cases j.pending with
    | nothing => exact overlooks_pure _
    | text s => exact overlooks_onFile n _
    | stream pipe pieces =>
      exact (overlooks_claim _ _).bind fun _ => overlooks_startHelper.bind fun _ =>
        overlooks_relayToFile _ _ _

theorem overlooks_serve (pipe : Option Nat) :
    Overlooks (recast goesOn h left) (serve pipe : Job.Step τ Unit) := by
  cases pipe <;> exact fun _ => rfl

theorem overlooks_feed (input : Option Nat) (amount : Nat) :
    Overlooks (recast goesOn h left) (feed input amount : Job.Step τ Unit) := by
  refine overlooks_get (fun _ => rfl) fun j => ?_
  cases j.pending with
  | nothing =>
    refine Overlooks.bind (overlooks_modify fun j => ?_) fun _ => overlooks_serve input
    have hbehind : (recast goesOn h left j).shell.behind = j.shell.behind := rfl
    simp only [drawn, hbehind]
    cases j.shell.behind <;> rfl
  | text s => exact (overlooks_setPending _).bind fun _ => overlooks_serve input
  | stream pipe pieces =>
    exact (overlooks_claim _ _).bind fun _ => (overlooks_serve input).bind fun _ =>
      overlooks_closePipe pipe

theorem overlooks_receive (s : Stream) (pipe : Option Nat) (pieces : List ByteArray) :
    Overlooks (recast goesOn h left) (receive s pipe pieces : Job.Step τ Unit) := by
  refine Overlooks.bind (overlooks_modify fun j => ?_) fun _ => overlooks_serve pipe
  have hwiring : (recast goesOn h left j).shell.wiring = j.shell.wiring := rfl
  rw [hwiring]
  cases j.shell.wiring.outlet s <;> rfl

theorem overlooks_handOn (last : Bool) (out pipe : Option Nat) (pieces : List ByteArray) :
    Overlooks (recast goesOn h left) (handOn last out pipe pieces : Job.Step τ Unit) := by
  cases last with
  | true =>
    cases out with
    | none => exact (overlooks_receive _ _ _).bind fun _ => overlooks_setPending _
    | some n => exact overlooks_setPending _
  | false =>
    cases pipe with
    | none => exact overlooks_setPending _
    | some n => exact fun _ => rfl

theorem overlooks_openPipeIf (needed : Bool) :
    Overlooks (recast goesOn h left) (openPipeIf needed : Job.Step τ (Option Nat)) := by
  cases needed <;> exact fun _ => rfl

theorem overlooks_spawn (last : Bool) (out err : Option Nat) :
    Overlooks (recast goesOn h left) (spawn last out err : Job.Step τ Ends) := by
  refine overlooks_get (fun _ => rfl) fun j => overlooks_get (fun _ => rfl) fun j' => ?_
  exact (overlooks_openPipeIf _).bind fun _ => (overlooks_openPipeIf _).bind fun _ =>
    (overlooks_openPipeIf _).bind fun _ _ => rfl

theorem overlooks_attend (last : Bool) (out err : Option Nat) (amount : Nat) (output : Output) :
    Overlooks (recast goesOn h left) (attend last out err amount output : Job.Step τ Unit) := by
  refine (overlooks_spawn last out err).bind fun ends => (overlooks_feed _ _).bind fun _ =>
    (overlooks_writeOutput _ _ _).bind fun _ => ?_
  cases err with
  | none => exact (overlooks_receive _ _ _).bind fun _ => overlooks_handOn _ _ _ _
  | some n => exact overlooks_handOn _ _ _ _

theorem overlooks_launch (c : Command) (last : Bool) (path : String) (out err : Option Nat) :
    Overlooks (recast goesOn h left) (launch e c last path out err) := by
  unfold launch
  cases (c.name :: c.args).all FileTree.isPath with
  | false => exact overlooks_throw _
  | true =>
    refine overlooks_get (fun _ => rfl) fun j => ?_
    dsimp only
    split
    · exact overlooks_throw _
    · exact overlooks_attend _ _ _ _ _

theorem overlooks_runProcess (c : Command) (last : Bool) :
    Overlooks (recast goesOn h left) (runProcess e c last) := by
  rw [runProcess_eq]
  refine overlooks_get (fun _ => rfl) fun j => ?_
  cases j.shell.locate c.name with
  | none => exact overlooks_throw _
  | some path =>
    exact (overlooks_openDestination _).bind fun out => (overlooks_openDestination _).bind
      fun err => overlooks_launch c last path out err

theorem overlooks_emit : Overlooks (recast goesOn h left) (emit : Job.Step τ Unit) := by
  rw [emit_eq]
  refine overlooks_get (fun _ => rfl) fun j => ?_
  cases j.pending with
  | nothing => exact overlooks_pure _
  | text s =>
    exact (overlooks_inShell ((overlooks_writeTo _ _).bind fun _ => overlooks_flush _)).bind
      fun _ => overlooks_setPending _
  | stream pipe pieces =>
    exact (overlooks_claim _ _).bind fun _ => overlooks_startHelper.bind fun _ =>
      (overlooks_inShell (overlooks_writeTo _ _)).outcome.discard.bind fun _ =>
      overlooks_closePipe pipe

theorem overlooks_shutAll (fs : List (Nat × BlockWriter)) :
    Overlooks (recast goesOn h left) (shutAll fs : Job.Step τ Unit) := by
  induction fs with
  | nil => exact overlooks_modify fun _ => rfl
  | cons f fs ih => exact ((overlooks_onFile _ _).ensure (overlooks_note _)).ensure ih

theorem overlooks_dropPending :
    Overlooks (recast goesOn h left) (dropPending : Job.Step τ Unit) := by
  refine overlooks_get (fun _ => rfl) fun j => ?_
  cases j.pending <;> exact fun _ => rfl

theorem overlooks_waitAll (room : Nat) (ps : List Process) :
    Overlooks (recast goesOn h id) (waitAll room ps : Job.Step τ Unit) := by
  induction ps with
  | nil => exact fun _ => rfl
  | cons p ps ih =>
    refine overlooks_get (fun _ => rfl) fun j => ?_
    cases j.blocks room p with
    | true => exact fun _ => rfl
    | false => exact (overlooks_note _).bind fun _ => ih

theorem overlooks_finish (room : Nat) :
    Overlooks (recast goesOn h id) (finish room : Job.Step τ Unit) := by
  refine overlooks_dropPending.bind fun _ => overlooks_get (fun _ => rfl) fun j =>
    (overlooks_waitAll room _).bind fun _ => Overlooks.bind (fun _ => ?_) fun _ =>
    Overlooks.bind (fun _ => ?_) fun _ => overlooks_shutAll _
  · simp only [joinAll_apply]
    rfl
  · simp only [discardAll_apply]
    rfl

theorem keepGoing_of_overlooks {x : Job.Step τ α}
    (hx : ∀ goesOn h, Overlooks (recast goesOn h id) x) (j : Job τ) :
    (x.final j).keepGoing = j.keepGoing := by
  rw [← (hx j.keepGoing j.shell.history).final (s := j) rfl]
  rfl

theorem history_of_overlooks {x : Job.Step τ α}
    (hx : ∀ goesOn h, Overlooks (recast goesOn h id) x) (j : Job τ) :
    (x.final j).shell.history = j.shell.history := by
  rw [← (hx j.keepGoing j.shell.history).final (s := j) rfl]
  rfl

end Job

end PipelineShell
