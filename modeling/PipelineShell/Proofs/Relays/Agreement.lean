import PipelineShell.Proofs.Relays.Leftovers
import PipelineShell.Session

/-! What the size of the reads means to a shell. Engines run every pipeline alike, unless one of
them never ends, just when something comes of the reads of both or of neither; and then every byte
that a process writes comes to the stage after it. -/

namespace PipelineShell

open Relay

namespace Job

open Shell

variable {τ : Type} {e : Engine τ} {c : Command} {j j' : Job τ}

theorem inputFor_of_granted (h : Granted e.host e.chunkSize) {pipe : Nat}
    {pieces : List ByteArray} (hp : j.pending = .stream pipe pieces) :
    j.inputFor e = joined pieces := by
  rw [inputFor, hp]
  exact joined_copy h pieces

theorem inputFor_of_not_granted (h : ¬Granted e.host e.chunkSize) {pipe : Nat}
    {pieces : List ByteArray} (hp : j.pending = .stream pipe pieces) :
    j.inputFor e = .empty := by
  have hcopy := copy_of_not_granted h pieces
  rw [inputFor, hp]
  exact congrArg joined hcopy

theorem pending_of_attend {output : Output} {err : Option Nat} {amount : Nat}
    (h : attend false none err amount output j = .ok () j') :
    ∃ pipe, j'.pending = .stream pipe (output.pieces .stdout) := by
  obtain ⟨ends, j₁, hspawn, h⟩ := Attempt.bind_eq_ok.mp h
  obtain ⟨pipe, hpipe⟩ := Option.isSome_iff_exists.mp (isSome_of_spawn hspawn)
  obtain ⟨_, j₂, -, h⟩ := Attempt.bind_eq_ok.mp h
  obtain ⟨_, j₃, -, h⟩ := Attempt.bind_eq_ok.mp h
  have hhand : ∀ {j : Job τ}, handOn false none ends.output (output.pieces .stdout) j = .ok () j' →
      ∃ pipe, j'.pending = .stream pipe (output.pieces .stdout) := by
    intro j h
    rw [hpipe] at h
    cases h
    exact ⟨pipe, rfl⟩
  cases err with
  | none =>
    obtain ⟨_, j₄, -, h⟩ := Attempt.bind_eq_ok.mp h
    exact hhand h
  | some n => exact hhand h

theorem pending_of_program (hc : c.isEmpty = false)
    (hb : j.shell.registry.isBuiltin c.name = false) (htarget : c.redirection.stdout.target = none)
    (h : runStage e c false j = .ok () j') : ∃ launch output pipe,
      deed e c false j = some (.started launch) ∧ e.programs launch = .ok output ∧
      j'.pending = .stream pipe (output.pieces .stdout) := by
  rw [runStage_of_program hc hb, runProcess_eq] at h
  simp only [Attempt.bind_apply, Attempt.get_apply] at h
  cases hpath : j.shell.locate c.name with
  | none => simp [hpath] at h
  | some path =>
    rw [hpath] at h
    obtain ⟨out, j₁, hout, h⟩ := Attempt.bind_eq_ok.mp h
    obtain ⟨err, j₂, herr, h⟩ := Attempt.bind_eq_ok.mp h
    have hopening : opening c j = .ok (out, err) j₂ := by
      rw [opening, Attempt.bind_of_ok hout, Attempt.bind_of_ok herr]
      rfl
    obtain rfl : out = none := by
      rw [openDestination, htarget] at hout
      cases hout
      rfl
    cases hwords : (c.name :: c.args).all FileTree.isPath with
    | false => simp [launch, hwords, Attempt.bind_apply] at h
    | true =>
      rw [launch_apply hwords, launching] at h
      cases hbusy : j₂.isBusy path with
      | true =>
        rw [hbusy] at h
        cases h
      | false =>
        simp only [hbusy, Bool.false_eq_true, if_false] at h
        cases hrun : e.programs (j₂.launchFor e c false path none err) with
        | error r =>
          rw [hrun] at h
          cases h
        | ok output =>
          rw [hrun] at h
          obtain ⟨pipe, hpipe⟩ := pending_of_attend h
          refine ⟨_, output, pipe, ?_, hrun, hpipe⟩
          simp only [deed, hc, hb, hpath, hopening, hwords, hbusy]
          rfl

theorem isEmpty_of_openHeld {d : Destination} {s t : Shell τ} {w : BlockWriter}
    (h : openHeld d s = .ok (some w) t) (hd : d.append = false) {old : ByteArray} {x : Bool}
    (hold : t.world.tree.get? w.place = some (.file old x)) : old = .empty := by
  obtain ⟨path, hpath⟩ : ∃ path, d.target = some path := by
    cases hd : d.target with
    | none => simp [openHeld, hd] at h
    | some path => exact ⟨path, rfl⟩
  rw [openHeld_apply, Destination.openIn, hpath, hd] at h
  simp only [Attempt.bind_apply] at h
  cases hopen : FileTree.openTarget s.world.dir path false s.world.tree with
  | error f u => simp [hopen] at h
  | ok place u =>
    rw [hopen] at h
    cases h
    exact FileTree.isEmpty_of_openTarget hopen hold

/-- What a process wrote comes to the target of a stage without a name, behind what is there once
the target is open. -/
theorem content_of_isEmpty (hc : c.isEmpty = true) {pipe : Nat} {pieces : List ByteArray}
    (hp : j.pending = .stream pipe pieces) {err : Option BlockWriter} {w : BlockWriter}
    {s t : Shell τ} (herr : openHeld c.redirection.stderr j.shell = .ok err s)
    (hout : openHeld c.redirection.stdout s = .ok (some w) t) {old : ByteArray} {x : Bool}
    (hold : t.world.tree.get? w.place = some (.file old x)) (ha : Granted e.host e.chunkSize)
    (last : Bool) :
    ∃ j', runStage e c last j = .ok () j' ∧ j'.pending = .text "" ∧
      j'.shell.world.tree.get? w.place = some (.file (old ++ joined pieces) x) := by
  obtain ⟨place, hw⟩ := openHeld_eq_ok_some hout
  have hopened : ((j.hold err s).hold (some w) t).file? (j.hold err s).fresh = some w :=
    file?_hold _ _ _
  have hpending : ((j.hold err s).hold (some w) t).pending = .stream pipe pieces := by
    rw [hold_pending, hold_pending, hp]
  have hroom : ¬w.OnFull t.world.tree := by
    intro hfull
    rw [BlockWriter.OnFull, hold] at hfull
    cases hfull
  have hcontent : (w.released (joined pieces) t.world.tree).get? w.place =
      some (.file (old ++ joined pieces) x) := by
    subst hw
    exact BlockWriter.get?_released_start hold
      (fun happend => isEmpty_of_openHeld hout happend hold) _
  obtain ⟨j₃, hclaim, hfile₃, hshell₃⟩ : ∃ j₃,
      (claim pipe .relay >>= fun _ => startHelper) ((j.hold err s).hold (some w) t) = .ok () j₃ ∧
      j₃.file? (j.hold err s).fresh = some w ∧ j₃.shell = t := ⟨_, rfl, hopened, rfl⟩
  obtain ⟨j₄, hput, htree⟩ := exists_putAll_copy (j := j₃) ha pieces hfile₃ (by rwa [hshell₃])
  obtain ⟨j₅, hclose, hshell₅⟩ : ∃ j₅, closePipe pipe j₄ = .ok () j₅ ∧ j₅.shell = j₄.shell :=
    ⟨_, rfl, rfl⟩
  rw [hshell₃, ← hshell₅] at htree
  refine ⟨{ j₅ with pending := .text "" }, ?_, rfl, by rw [← hcontent, ← htree]⟩
  have hstderr : openDestination c.redirection.stderr j =
      .ok (err.map fun _ => j.fresh) (j.hold err s) := by
    rw [openDestination_apply, herr]
  have hstdout : openDestination c.redirection.stdout (j.hold err s) =
      .ok (some (j.hold err s).fresh) ((j.hold err s).hold (some w) t) := by
    rw [openDestination_apply, hold_shell, hout]
    rfl
  have hpour : pour e (j.hold err s).fresh (.stream pipe pieces)
      ((j.hold err s).hold (some w) t) = .ok () j₅ := by
    rw [pour, ← bind_assoc, Attempt.bind_of_ok hclaim, relayToFile, Attempt.bind_of_ok hput]
    exact hclose
  rw [runStage_of_isEmpty hc, runEmpty_eq, Attempt.bind_of_ok hstderr, Attempt.bind_of_ok hstdout,
    takeIn, Attempt.bind_of_ok (Attempt.get_apply _), hpending, Attempt.bind_of_ok hpour]
  rfl

end Job

/-- Every byte that a process writes comes to the stage after it: to a process as what it reads, and
to a stage without a name as what its target takes. -/
structure Engine.Delivers {τ : Type} (e : Engine τ) : Prop where
  toProcess : ∀ {c : Command} {j j' : Job τ}, c.isEmpty = false →
    j.shell.registry.isBuiltin c.name = false → c.redirection.stdout.target = none →
    Job.runStage e c false j = .ok () j' → ∃ launch output pipe,
      Job.deed e c false j = some (.started launch) ∧ e.programs launch = .ok output ∧
      j'.pending = .stream pipe (output.pieces .stdout) ∧
      j'.inputFor e = joined (output.pieces .stdout)
  toFile : ∀ {c : Command} {j : Job τ} {pipe : Nat} {pieces : List ByteArray}
    {err : Option BlockWriter} {w : BlockWriter} {s t : Shell τ} {old : ByteArray} {x : Bool},
    c.isEmpty = true → j.pending = .stream pipe pieces →
    Shell.openHeld c.redirection.stderr j.shell = .ok err s →
    Shell.openHeld c.redirection.stdout s = .ok (some w) t →
    t.world.tree.get? w.place = some (.file old x) → ∀ last, ∃ j',
      Job.runStage e c last j = .ok () j' ∧ j'.pending = .text "" ∧
      j'.shell.world.tree.get? w.place = some (.file (old ++ joined pieces) x)

/-- Nothing of what a process writes passes a relay. -/
structure Engine.Starves {τ : Type} (e : Engine τ) : Prop where
  toProcess : ∀ {j : Job τ} {pipe : Nat} {pieces : List ByteArray},
    j.pending = .stream pipe pieces → j.inputFor e = .empty
  toFile : ∀ {j : Job τ} {n pipe : Nat} {pieces : List ByteArray}, ∃ j',
    Job.pour e n (.stream pipe pieces) j = .ok () j' ∧ j'.shell = j.shell ∧ j'.files = j.files

namespace Session

variable {τ : Type}

/-- The size that a session is configured with: the one that is asked for, and for zero that of the
settings. -/
def Configures (host : Host) (world : World) (asked size : Int) : Prop :=
  if asked = 0 then
    ∃ settings, Settings.load host.reader world = .ok settings ∧ size = settings.chunkSize
  else size = asked

theorem configures_of_start {shell : Shell τ} {handler : τ → Handler τ} {programs : Programs}
    {host : Host} {asked : Int} {x : Session τ}
    (h : start shell handler programs host asked = .ok x) :
    ∃ size, Configures host shell.world asked size ∧ x.shell = shell ∧
      x.engine = (⟨handler, programs, 0, host⟩ : Engine τ).moving size := by
  unfold start chooseChunkSize at h
  unfold Configures
  by_cases hasked : asked = 0
  · simp only [hasked, if_true, readSettings, Attempt.bind_apply, Attempt.get_apply] at h ⊢
    cases hload : Settings.load host.reader shell.world with
    | error f => simp [hload] at h
    | ok settings =>
      rw [hload] at h
      cases h
      exact ⟨_, ⟨settings, rfl, rfl⟩, rfl, rfl⟩
  · simp only [if_neg hasked, Attempt.bind_apply, Attempt.pure_apply] at h ⊢
    cases h
    exact ⟨_, rfl, rfl, rfl⟩

end Session

namespace Relay

variable {τ : Type} {host : Host} {a b : Int} {e : Engine τ}

theorem delivers_of_granted (h : Granted e.host e.chunkSize) : e.Delivers where
  toProcess hc hb htarget hrun := by
    obtain ⟨launch, output, pipe, hdeed, hprogram, hpending⟩ :=
      Job.pending_of_program hc hb htarget hrun
    exact ⟨launch, output, pipe, hdeed, hprogram, hpending, Job.inputFor_of_granted h hpending⟩
  toFile hc hp herr hout hold last := Job.content_of_isEmpty hc hp herr hout hold h last

theorem starves_of_not_granted (h : ¬Granted e.host e.chunkSize) : e.Starves where
  toProcess hp := Job.inputFor_of_not_granted h hp
  toFile {j n pipe pieces} := by
    have hcopy := copy_of_not_granted h pieces
    rw [Job.pour, Job.relayToFile, hcopy]
    exact ⟨_, rfl, rfl, rfl⟩

section

variable (host a b)

/-- Engines of the host that read by these sizes do the same with every pipeline. -/
def SameRuns : Prop :=
  ∀ (e : Engine Builtin) (p : Pipeline) (s : Shell Builtin), e.host = host →
    p.execute (e.moving b) s = p.execute (e.moving a) s

/-- They do the same with every pipeline that ends with both. -/
def SameEndings : Prop :=
  ∀ (e : Engine Builtin) (p : Pipeline) (s : Shell Builtin), e.host = host →
    p.execute (e.moving b) s = p.execute (e.moving a) s ∨
      p.NeverEnds (e.moving a) s ∨ p.NeverEnds (e.moving b) s

end

def trialEngine (host : Host) : Engine Builtin :=
  ⟨Builtin.run, Routes.trialPrograms, 0, host⟩

def trialPipeline : Pipeline :=
  ⟨⟨"/e", [], .none⟩, [⟨"", [], .onto "g" false⟩]⟩

theorem leaves_trial (host : Host) (size : Int) :
    trialPipeline.Leaves ((trialEngine host).moving size) Routes.trialShell "g"
      (if Granted host size then ⟨#[0xff, 0x0d, 0xc3, 0xa9]⟩ else .empty) := by
  have hopen : Routes.trialShell.OpensOnto "g" false ["g"]
      (Routes.trialShell.world.tree.revise ["g"] fun _ => .empty) :=
    ⟨by decide +kernel, .empty, false, by decide⟩
  have hleaves := Pipeline.leaves_relayed (e := (trialEngine host).moving size)
    Routes.finds_trialShell rfl rfl hopen
  have hpieces : joined (Output.pieces [(.stdout, ⟨#[0xff, 0x0d, 0xc3]⟩), (.stderr, ⟨#[0x21]⟩),
      (.stdout, ⟨#[0xa9]⟩)] .stdout) = ⟨#[0xff, 0x0d, 0xc3, 0xa9]⟩ := by
    decide
  rw [joined_copy_eq, hpieces, Shell.kept_false, ByteArray.empty_append] at hleaves
  exact hleaves

/-- What comes to the file tells whether something comes of the reads. -/
theorem alike_of_sameEndings (h : SameEndings host a b) : Relay.Alike host a b := by
  obtain ⟨t, ht, hread⟩ := leaves_trial host a
  obtain ⟨t', ht', hread'⟩ := leaves_trial host b
  have hbytes : (if Granted host b then ⟨#[0xff, 0x0d, 0xc3, 0xa9]⟩ else ByteArray.empty) =
      if Granted host a then ⟨#[0xff, 0x0d, 0xc3, 0xa9]⟩ else .empty := by
    rcases h (trialEngine host) trialPipeline Routes.trialShell rfl with hsame | ⟨u, hu⟩ | ⟨u, hu⟩
    · cases (ht'.symm.trans hsame).trans ht
      exact Except.ok.inj (hread'.symm.trans hread)
    · cases hu.symm.trans ht
    · cases hu.symm.trans ht'
  have hsome : (⟨#[0xff, 0x0d, 0xc3, 0xa9]⟩ : ByteArray) ≠ .empty := by decide
  by_cases ha : Granted host a <;> by_cases hb : Granted host b <;> simp_all [Alike]

/-- Of two sizes that differ, one leaves more in a pipe for which there is no room. -/
theorem sameReads_of_sameRuns (h : SameRuns host a b) : SameReads host a b := by
  have halike : Relay.Alike host a b := alike_of_sameEndings fun e p s he => .inl (h e p s he)
  by_cases ha : Granted host a
  · have hleft : ∀ amount, 0 < amount →
        (host.pipeRoom < amount - readSize host a ↔ host.pipeRoom < amount - readSize host b) := by
      intro amount hamount
      rw [← neverEnds_full_iff ha hamount, ← neverEnds_full_iff (halike.mp ha) hamount,
        Pipeline.NeverEnds, Pipeline.NeverEnds, h (fullEngine host amount) _ _ rfl]
    have hone := hleft (host.pipeRoom + readSize host a + 1) (by omega)
    have hother := hleft (host.pipeRoom + readSize host b + 1) (by omega)
    unfold SameReads
    omega
  · have hb := mt halike.mpr ha
    unfold Granted at ha hb
    unfold SameReads
    omega

end Relay

end PipelineShell
