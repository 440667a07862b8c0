import PipelineShell.Execution
import PipelineShell.Proofs.Redirected

/-! What the parts of a job do to the shell, to the open files and to the pending output. Events and
helpers are only noted and change neither. -/

namespace PipelineShell.Job

variable {τ α : Type}

theorem resolve_of_isBuiltin {r : Registry τ} {name : String} (h : r.isBuiltin name = true) :
    ∃ tag, r.resolve name = .ok tag := by
  unfold Registry.isBuiltin at h
  unfold Registry.resolve
  cases hr : r.get? name with
  | none => simp [hr] at h
  | some tag => exact ⟨tag, rfl⟩

section

variable {e : Engine τ} {c : Command} {last : Bool} {j : Job τ}

theorem runStage_of_isEmpty (hc : c.isEmpty = true) :
    runStage e c last = runEmpty e c.redirection :=
  if_pos hc

theorem runStage_of_resolve {tag : τ} (hc : c.isEmpty = false)
    (hb : j.shell.registry.isBuiltin c.name = true)
    (htag : j.shell.registry.resolve c.name = .ok tag) :
    runStage e c last j = runBuiltin e tag c last j := by
  simp [runStage, hc, Attempt.bind_apply, hb, htag]

theorem runStage_of_program (hc : c.isEmpty = false)
    (hb : j.shell.registry.isBuiltin c.name = false) :
    runStage e c last j = runProcess e c last j := by
  simp [runStage, hc, Attempt.bind_apply, hb]

end

/-- The job but for what is noted of its processes, of its helpers and of the pipes in use. -/
structure Aside (j j' : Job τ) : Prop where
  shell : j'.shell = j.shell
  pending : j'.pending = j.pending
  keepGoing : j'.keepGoing = j.keepGoing
  files : j'.files = j.files
  unread : j'.unread = j.unread
  fresh : j.fresh ≤ j'.fresh

theorem Aside.trans {j₁ j₂ j₃ : Job τ} (h : Aside j₁ j₂) (h' : Aside j₂ j₃) : Aside j₁ j₃ :=
  ⟨h'.shell.trans h.shell, h'.pending.trans h.pending, h'.keepGoing.trans h.keepGoing,
    h'.files.trans h.files, h'.unread.trans h.unread, Nat.le_trans h.fresh h'.fresh⟩

/-- A step that cannot fail, and of which no more comes than a note. -/
def Noted (x : Job.Step τ α) : Prop :=
  ∀ j, ∃ a j', x j = .ok a j' ∧ Aside j j'

section

variable {β : Type}

theorem Noted.keeps {x : Job.Step τ α} {r : Job τ → Job τ → Prop} (h : Noted x)
    (hr : ∀ j j', Aside j j' → r j j') : Attempt.Keeps r x := by
  intro j
  obtain ⟨a, j', hj, haside⟩ := h j
  unfold Attempt.final
  rw [hj]
  exact hr j j' haside

theorem noted_pure (a : α) : Noted (pure a : Job.Step τ α) :=
  fun j => ⟨a, j, rfl, rfl, rfl, rfl, rfl, rfl, Nat.le_refl _⟩

theorem Noted.bind {x : Job.Step τ α} {f : α → Job.Step τ β} (hx : Noted x)
    (hf : ∀ a, Noted (f a)) : Noted (x >>= f) := by
  intro j
  obtain ⟨a, j₁, hj, haside⟩ := hx j
  obtain ⟨b, j₂, hj₁, haside₁⟩ := hf a j₁
  exact ⟨b, j₂, (Attempt.bind_of_ok hj f).trans hj₁, haside.trans haside₁⟩

theorem noted_get {f : Job τ → Job.Step τ α} (h : ∀ j, Noted (f j)) : Noted (get >>= f) :=
  fun j => h j j

end

theorem noted_note (event : Event) : Noted (note event : Job.Step τ Unit) :=
  fun _ => ⟨_, _, rfl, rfl, rfl, rfl, rfl, rfl, Nat.le_refl _⟩

theorem noted_startHelper : Noted (startHelper : Job.Step τ Unit) :=
  fun _ => ⟨_, _, rfl, rfl, rfl, rfl, rfl, rfl, Nat.le_succ _⟩

theorem noted_openPipe : Noted (openPipe : Job.Step τ Nat) :=
  fun _ => ⟨_, _, rfl, rfl, rfl, rfl, rfl, rfl, Nat.le_succ _⟩

theorem noted_openPipeIf (needed : Bool) : Noted (openPipeIf needed : Job.Step τ (Option Nat)) := by
  cases needed with
  | false => exact noted_pure _
  | true => exact noted_openPipe.bind fun _ => noted_pure _

theorem noted_closePipe (pipe : Nat) : Noted (closePipe pipe : Job.Step τ Unit) :=
  fun _ => ⟨_, _, rfl, rfl, rfl, rfl, rfl, rfl, Nat.le_refl _⟩

theorem noted_serve (pipe : Option Nat) : Noted (serve pipe : Job.Step τ Unit) := by
  cases pipe with
  | none => exact noted_pure _
  | some pipe => exact noted_startHelper.bind fun _ => noted_closePipe pipe

theorem noted_spawn (last : Bool) (out err : Option Nat) :
    Noted (spawn last out err : Job.Step τ Ends) :=
  noted_get fun _ => noted_get fun _ => (noted_openPipeIf _).bind fun _ =>
    (noted_openPipeIf _).bind fun _ => (noted_openPipeIf _).bind fun _ =>
    fun _ => ⟨_, _, rfl, rfl, rfl, rfl, rfl, rfl, Nat.le_succ _⟩

def served (amount : Nat) (j : Job τ) : Shell τ :=
  if j.pending = .nothing then drawn j.shell amount else j.shell

theorem exists_feed (input : Option Nat) (amount : Nat) (j : Job τ) : ∃ j',
    feed input amount j = .ok () j' ∧
      Aside { j with shell := j.served amount, pending := .nothing } j' := by
  unfold feed served
  rw [Attempt.bind_of_ok (Attempt.get_apply j)]
  cases hp : j.pending with
  | nothing =>
    obtain ⟨_, j', hserve, haside⟩ := noted_serve input { j with shell := drawn j.shell amount }
    exact ⟨j', hserve, haside.shell, haside.pending.trans hp, haside.keepGoing, haside.files,
      haside.unread, haside.fresh⟩
  | text s =>
    obtain ⟨_, j', hserve, haside⟩ := noted_serve input { j with pending := .nothing }
    exact ⟨j', hserve, haside⟩
  | stream pipe pieces =>
    obtain ⟨_, j', hclose, haside⟩ := ((noted_serve input).bind fun _ => noted_closePipe pipe)
      { j with pending := .nothing, events := .claimed pipe .relay :: j.events }
    exact ⟨j', hclose, haside.shell, haside.pending, haside.keepGoing, haside.files, haside.unread,
      haside.fresh⟩

/-- The job with a process that has just started, and with the pipes of it. -/
def launched (j : Job τ) (pipes : List Nat) : Job τ :=
  { j with
    fresh := j.fresh + 1
    processes := ⟨j.fresh, pipes⟩ :: j.processes
    events := .spawned j.fresh :: j.events }

theorem spawn_apply (last : Bool) (out err : Option Nat) (j : Job τ) : spawn last out err j =
    (openPipeIf j.feeds >>= fun input =>
      openPipeIf (out.isNone &&
        !j.shell.inherits (j.shell.wiring.stageOutput last)) >>= fun output =>
      openPipeIf (err.isNone && !j.shell.inherits j.shell.wiring.stderr) >>= fun errors i =>
      .ok ⟨input, output, errors⟩
        (i.launched (input.toList ++ output.toList ++ errors.toList))) j := rfl

theorem openPipeIf_eq_ok {needed : Bool} {j j' : Job τ} {pipe : Option Nat}
    (h : openPipeIf needed j = .ok pipe j') : pipe.isSome = needed := by
  cases needed <;> (cases h; rfl)

theorem isSome_of_spawn {last : Bool} {out err : Option Nat} {j j' : Job τ} {ends : Ends}
    (h : spawn last out err j = .ok ends j') : ends.output.isSome =
      (out.isNone && !j.shell.inherits (j.shell.wiring.stageOutput last)) := by
  rw [spawn_apply] at h
  obtain ⟨_, _, -, h⟩ := Attempt.bind_eq_ok.mp h
  obtain ⟨_, _, houtput, h⟩ := Attempt.bind_eq_ok.mp h
  obtain ⟨_, _, -, h⟩ := Attempt.bind_eq_ok.mp h
  cases h
  exact openPipeIf_eq_ok houtput

theorem inShell_eq_ok {step : Shell.Step τ α} {j j' : Job τ} {a : α} :
    inShell step j = .ok a j' ↔ ∃ s, step j.shell = .ok a s ∧ { j with shell := s } = j' :=
  Attempt.within_eq_ok

def hold (j : Job τ) (w : Option BlockWriter) (s : Shell τ) : Job τ :=
  match w with
  | none => { j with shell := s }
  | some w =>
    { j with
      shell := s
      files := (j.fresh, w) :: j.files
      events := .opened j.fresh :: j.events
      fresh := j.fresh + 1 }

theorem openDestination_apply (d : Destination) (j : Job τ) : openDestination d j =
    match Shell.openHeld d j.shell with
    | .ok w s => .ok (w.map fun _ => j.fresh) (j.hold w s)
    | .error e s => .error e { j with shell := s } := by
  cases hd : d.target with
  | none => simp [openDestination, Shell.openHeld, hd, hold]
  | some path =>
    simp only [openDestination, Shell.openHeld, hd, openFile, inShell, Attempt.bind_apply,
      Attempt.within]
    cases Shell.openTarget path d.append j.shell <;> rfl

/-- The target of a stage without a name takes what is pending. -/
def pour (e : Engine τ) (file : Nat) : Pending → Job.Step τ Unit
  | .nothing => pure ()
  | .text s => onFile file (BlockWriter.write (Text.encode s))
  | .stream pipe pieces => do
    claim pipe .relay
    startHelper
    relayToFile e file pipe pieces

@[simp] theorem hold_shell (j : Job τ) (w : Option BlockWriter) (s : Shell τ) :
    (j.hold w s).shell = s := by
  cases w <;> rfl

@[simp] theorem hold_pending (j : Job τ) (w : Option BlockWriter) (s : Shell τ) :
    (j.hold w s).pending = j.pending := by
  cases w <;> rfl

@[simp] theorem hold_keepGoing (j : Job τ) (w : Option BlockWriter) (s : Shell τ) :
    (j.hold w s).keepGoing = j.keepGoing := by
  cases w <;> rfl

@[simp] theorem hold_processes (j : Job τ) (w : Option BlockWriter) (s : Shell τ) :
    (j.hold w s).processes = j.processes := by
  cases w <;> rfl

@[simp] theorem hold_unread (j : Job τ) (w : Option BlockWriter) (s : Shell τ) :
    (j.hold w s).unread = j.unread := by
  cases w <;> rfl

theorem map_files_hold (j : Job τ) (w : Option BlockWriter) (s : Shell τ) :
    (j.hold w s).files.map (·.2) = w.toList ++ j.files.map (·.2) := by
  cases w <;> rfl

theorem openDestination_eq_ok {d : Destination} {j j' : Job τ} {out : Option Nat} :
    openDestination d j = .ok out j' ↔ ∃ w s, Shell.openHeld d j.shell = .ok w s ∧
      out = w.map (fun _ => j.fresh) ∧ j' = j.hold w s := by
  rw [openDestination_apply]
  cases Shell.openHeld d j.shell with
  | error f s => simp
  | ok w s =>
    constructor
    · rintro ⟨⟩
      exact ⟨w, s, rfl, rfl, rfl⟩
    · rintro ⟨_, _, ⟨rfl, rfl⟩, rfl, rfl⟩
      rfl

def takeIn (e : Engine τ) : Option Nat → Job.Step τ Unit
  | none => pure ()
  | some n => do
    pour e n (← get).pending
    setPending (.text "")

theorem runEmpty_eq (e : Engine τ) (r : Redirection) : runEmpty e r =
    openDestination r.stderr >>= fun _ => openDestination r.stdout >>= fun out => takeIn e out := by
  funext j
  simp only [runEmpty, takeIn, Attempt.bind_apply, Attempt.discard_apply]
  cases openDestination r.stderr j with
  | error f j₁ => rfl
  | ok a j₁ =>
    dsimp only
    cases openDestination r.stdout j₁ with
    | error f j₂ => rfl
    | ok out j₂ =>
      cases out with
      | none => rfl
      | some n =>
        simp only [Attempt.bind_apply, Attempt.get_apply]
        cases j₂.pending <;> rfl

def launch (e : Engine τ) (c : Command) (last : Bool) (path : String) (out err : Option Nat) :
    Job.Step τ Unit := do
  if !(c.name :: c.args).all FileTree.isPath then throw (.fault .nulByte)
  let j ← get
  let launch := j.launchFor e c last path out err
  match if j.isBusy path then .error .busy else e.programs launch with
  | .error r => throw (.shell (.cannotExecute c.name (.ofRefusal r)))
  | .ok output => attend last out err (e.host.draws launch) output

theorem runProcess_eq (e : Engine τ) (c : Command) (last : Bool) : runProcess e c last =
    get >>= fun j => match j.shell.locate c.name with
      | none => throw (.shell (.unknownCommand c.name))
      | some path => openDestination c.redirection.stdout >>= fun out =>
        openDestination c.redirection.stderr >>= fun err => launch e c last path out err := by
  unfold runProcess launch
  rfl

section

variable {e e' : Engine τ}

/-- What builtins do makes no difference to the stages that are none. -/
theorem runEmpty_congr (hchunk : e'.chunkSize = e.chunkSize) (hhost : e'.host = e.host) :
    runEmpty e' = runEmpty e := by
  cases e
  cases e'
  cases hchunk
  cases hhost
  rfl

theorem runProcess_congr (hprograms : e'.programs = e.programs)
    (hchunk : e'.chunkSize = e.chunkSize) (hhost : e'.host = e.host) :
    runProcess e' = runProcess e := by
  cases e
  cases e'
  cases hprograms
  cases hchunk
  cases hhost
  rfl

end

def emitTo (o : Outlet) : Pending → Job.Step τ Unit
  | .nothing => pure ()
  | .text s => do
    inShell do
      Shell.writeTo o s
      Shell.flush o
    setPending .nothing
  | .stream pipe pieces => do
    claim pipe .pump
    startHelper
    discard (inShell (Shell.writeTo o (Text.decodePieces pieces))).outcome
    closePipe pipe

theorem emit_eq : (emit : Job.Step τ Unit) =
    get >>= fun j => emitTo j.shell.wiring.stdout j.pending := by
  funext j
  simp only [emit, Attempt.bind_apply, Attempt.get_apply]
  cases j.pending <;> rfl

/-- Each open file has a number of its own, and new numbers are greater. -/
structure Numbered (j : Job τ) : Prop where
  nodup : (j.files.map (·.1)).Nodup
  below : ∀ f ∈ j.files, f.1 < j.fresh

namespace Numbered

variable {j : Job τ}

theorem start (s : Shell τ) : (Job.start s).Numbered :=
  ⟨List.nodup_nil, by simp [Job.start]⟩

theorem hold (h : j.Numbered) (w : Option BlockWriter) (s : Shell τ) : (j.hold w s).Numbered := by
  cases w with
  | none => exact ⟨h.nodup, h.below⟩
  | some w =>
    refine ⟨List.nodup_cons.mpr ⟨fun hmem => ?_, h.nodup⟩, fun f hf => ?_⟩
    · obtain ⟨f, hf, hn⟩ := List.mem_map.mp hmem
      exact Nat.lt_irrefl _ (hn ▸ h.below f hf)
    · rcases List.mem_cons.mp hf with rfl | hf
      · exact Nat.lt_succ_self _
      · exact Nat.lt_succ_of_lt (h.below f hf)

theorem setFile (h : j.Numbered) (n : Nat) (w : BlockWriter) (t : FileTree) :
    (j.setFile n w t).Numbered := by
  have hnumber : ∀ f : Nat × BlockWriter, (if f.1 = n then (n, w) else f).1 = f.1 := by
    intro f
    split <;> simp_all
  refine ⟨?_, fun f hf => ?_⟩
  · simpa only [Job.setFile, List.map_map, Function.comp_def, hnumber] using h.nodup
  · obtain ⟨g, hg, rfl⟩ := List.mem_map.mp hf
    exact (hnumber g).symm ▸ h.below g hg

theorem file?_eq_some_iff (h : j.Numbered) {n : Nat} {w : BlockWriter} :
    j.file? n = some w ↔ (n, w) ∈ j.files := by
  have hn := h.nodup
  unfold file?
  generalize j.files = files at hn ⊢
  induction files with
  | nil => simp
  | cons f fs ih =>
    obtain ⟨hf, hfs⟩ := List.nodup_cons.mp hn
    rw [List.lookup_cons, List.mem_cons]
    by_cases hnf : n = f.1
    · subst hnf
      have hno : (f.1, w) ∉ fs := fun hmem => hf (List.mem_map.mpr ⟨_, hmem, rfl⟩)
      simp [hno, Prod.ext_iff, eq_comm]
    · have hne : (n, w) ≠ f := fun he => hnf (he ▸ rfl)
      have hb : (n == f.1) = false := beq_false_of_ne hnf
      simp [hb, ih hfs, hne]

theorem setFile_self (h : j.Numbered) {n : Nat} {w : BlockWriter} (hw : j.file? n = some w) :
    j.setFile n w j.shell.world.tree = j := by
  have hsame : ∀ f ∈ j.files, (if f.1 = n then (n, w) else f) = f := by
    intro f hf
    split
    · next hn =>
      subst hn
      have hf' := h.file?_eq_some_iff.mpr hf
      exact Prod.ext rfl (Option.some.inj (hw.symm.trans hf'))
    · rfl
  have hfiles : (j.setFile n w j.shell.world.tree).files = j.files := by
    simpa only [Job.setFile, List.map_id_fun', id] using List.map_congr_left hsame
  cases j
  simp_all [Job.setFile, setTree]

end Numbered

theorem mem_files_setFile {j : Job τ} {f : Nat × BlockWriter} (hf : f ∈ j.files) {n : Nat}
    (hn : f.1 ≠ n) (w : BlockWriter) (t : FileTree) : f ∈ (j.setFile n w t).files :=
  List.mem_map.mpr ⟨f, hf, if_neg hn⟩

theorem file?_hold (j : Job τ) (w : BlockWriter) (s : Shell τ) :
    (j.hold (some w) s).file? j.fresh = some w := by
  simp [file?, hold]

theorem onFile_of_file? {j : Job τ} {n : Nat} {w : BlockWriter} (h : j.file? n = some w)
    (step : BlockWriter.Writing Unit) : onFile n step j =
      match step (w, j.shell.world.tree) with
      | .ok _ (w, t) => .ok () (j.setFile n w t)
      | .error f (w, t) => .error (.fault f) (j.setFile n w t) := by
  unfold onFile
  generalize j.file? n = o at h ⊢
  subst h
  rfl

section

variable {n : Nat} {j : Job τ} {w : BlockWriter}

theorem file?_setFile (h : j.file? n = some w) (w' : BlockWriter) (t : FileTree) :
    (j.setFile n w' t).file? n = some w' := by
  unfold file? setFile at *
  generalize j.files = files at h ⊢
  induction files with
  | nil => cases h
  | cons f fs ih =>
    by_cases hn : f.1 = n
    · simp [hn]
    · have hno : (n == f.1) = false := beq_false_of_ne (Ne.symm hn)
      rw [List.lookup_cons, hno] at h
      rw [List.map_cons, if_neg hn, List.lookup_cons, hno]
      exact ih h

theorem setFile_setFile (j : Job τ) (n : Nat) (w w' : BlockWriter) (t t' : FileTree) :
    (j.setFile n w t).setFile n w' t' = j.setFile n w' t' := by
  have hlast : ∀ f : Nat × BlockWriter,
      (if (if f.1 = n then (n, w) else f).1 = n then (n, w') else if f.1 = n then (n, w) else f) =
        if f.1 = n then (n, w') else f := by
    intro f
    by_cases hf : f.1 = n <;> simp [hf]
  simp [setFile, setTree, Function.comp_def, hlast]

theorem putAll_cons_apply (n : Nat) (piece : ByteArray) (pieces : List ByteArray) (j : Job τ) :
    putAll n (piece :: pieces) j = match onFile n (BlockWriter.put piece) j with
      | .ok _ j => putAll n pieces j
      | .error _ j => .ok (some (Relay.joined pieces).size) j := by
  simp only [putAll, Attempt.bind_apply, Attempt.outcome]
  cases onFile n (BlockWriter.put piece) j <;> rfl

theorem putAll_of_none (h : j.file? n = none) (pieces : List ByteArray) :
    putAll n pieces j = .ok none j := by
  induction pieces with
  | nil => rfl
  | cons piece pieces ih => simp only [putAll_cons_apply, onFile, h, ih]

theorem exists_putAll (hfile : j.file? n = some w) (hroom : ¬w.OnFull j.shell.world.tree)
    (pieces : List ByteArray) : ∃ j', putAll n pieces j = .ok none j' := by
  induction pieces generalizing j w with
  | nil => exact ⟨j, rfl⟩
  | cons piece pieces ih =>
    obtain ⟨w', t', hput, -, hstays⟩ := BlockWriter.put_of_not_onFull hroom piece
    rw [putAll_cons_apply, onFile_of_file? hfile, hput]
    exact ih (file?_setFile hfile _ _) fun hfull =>
      hroom ((BlockWriter.onFull_of_stays hstays).mp hfull)

end

theorem final_onFile {j : Job τ} {n : Nat} {w : BlockWriter} (h : j.file? n = some w)
    (step : BlockWriter.Writing Unit) : (onFile n step).final j =
      j.setFile n (step.final (w, j.shell.world.tree)).1
        (step.final (w, j.shell.world.tree)).2 := by
  unfold Attempt.final
  rw [onFile_of_file? h]
  cases step (w, j.shell.world.tree) <;> rfl

theorem map_files_setFile_hold {j : Job τ} (h : j.Numbered) (w w' : BlockWriter) (s : Shell τ)
    (t : FileTree) :
    ((j.hold (some w) s).setFile j.fresh w' t).files.map (·.2) = w' :: j.files.map (·.2) := by
  have hother : ∀ f ∈ j.files, (if f.1 = j.fresh then (j.fresh, w') else f).2 = f.2 := by
    intro f hf
    rw [if_neg (Nat.ne_of_lt (h.below f hf))]
  simpa [setFile, hold, List.map_map, Function.comp_def] using hother

/-! The end of a job. -/

section

variable {room : Nat} {j : Job τ}

/-- The job when it has dropped the pipe that nobody has taken. -/
def dropped (j : Job τ) : Job τ :=
  match j.pending with
  | .stream pipe _ =>
    { j with
      pending := .nothing
      pipes := j.pipes.filter (· ≠ pipe)
      events := .closed pipe :: .claimed pipe .drop :: j.events }
  | _ => j

theorem dropPending_apply (j : Job τ) : dropPending j = .ok () j.dropped := by
  unfold dropPending dropped
  rw [Attempt.bind_of_ok (Attempt.get_apply _)]
  cases j.pending <;> rfl

/-- The job waits for ever: a process that it has started does not end. -/
def Stuck (room : Nat) (j : Job τ) : Prop :=
  ∃ p ∈ j.processes, j.dropped.blocks room p = true

instance : Decidable (j.Stuck room) :=
  inferInstanceAs (Decidable (∃ p ∈ j.processes, j.dropped.blocks room p = true))

theorem not_stuck_of_processes (h : j.processes = []) : ¬j.Stuck room := by
  simp [Stuck, h]

theorem stuck_shell_iff (j : Job τ) (s : Shell τ) :
    ({ j with shell := s } : Job τ).Stuck room ↔ j.Stuck room := by
  obtain ⟨_, pending⟩ := j
  cases pending <;> exact Iff.rfl

theorem waitAll_of_not_blocks {ps : List Process} (h : ∀ p ∈ ps, j.blocks room p = false) :
    waitAll room ps j = .ok () { j with
      processes := []
      events := (ps.map fun p => Event.waited p.number).reverse ++ j.events } := by
  induction ps generalizing j with
  | nil => rfl
  | cons p ps ih =>
    have hrest := ih (j := { j with events := .waited p.number :: j.events })
      fun q hq => h q (List.mem_cons_of_mem p hq)
    have hp : j.blocks room p = false := h p (List.mem_cons_self ..)
    simp only [waitAll, Attempt.bind_apply, Attempt.get_apply, hp, note]
    exact hrest.trans (by simp)

theorem waitAll_of_blocks {ps : List Process} (h : ∃ p ∈ ps, j.blocks room p = true) :
    ∃ before, before <+: ps ∧ waitAll room ps j = .error .endless { j with
      events := (before.map fun p => Event.waited p.number).reverse ++ j.events } := by
  induction ps generalizing j with
  | nil => simp at h
  | cons p ps ih =>
    cases hp : j.blocks room p with
    | true =>
      refine ⟨[], List.nil_prefix, ?_⟩
      simp only [waitAll, Attempt.bind_apply, Attempt.get_apply, hp]
      rfl
    | false =>
      have hrest : ∃ q ∈ ps, j.blocks room q = true := by
        obtain ⟨q, hq, hblocks⟩ := h
        rcases List.mem_cons.mp hq with rfl | hq
        · rw [hp] at hblocks
          cases hblocks
        · exact ⟨q, hq, hblocks⟩
      obtain ⟨before, hbefore, hwait⟩ :=
        ih (j := { j with events := .waited p.number :: j.events }) hrest
      refine ⟨p :: before, List.cons_prefix_cons.mpr ⟨rfl, hbefore⟩, ?_⟩
      simp only [waitAll, Attempt.bind_apply, Attempt.get_apply, hp, note]
      exact hwait.trans (by simp)

theorem joinAll_apply (hs : List Nat) (j : Job τ) : joinAll hs j =
    .ok () { j with helpers := [], events := (hs.map Event.joined).reverse ++ j.events } := by
  induction hs generalizing j with
  | nil => rfl
  | cons p ps ih =>
    simp only [joinAll, Attempt.bind_apply, note, Attempt.modify_apply, ih]
    simp

theorem discardAll_apply (us : List (Nat × Nat)) (j : Job τ) : discardAll us j =
    .ok () { j with
      unread := []
      events := (us.map fun u => Event.discarded u.1).reverse ++ j.events } := by
  induction us generalizing j with
  | nil => rfl
  | cons u us ih =>
    simp only [discardAll, Attempt.bind_apply, note, Attempt.modify_apply, ih]
    simp

/-- The job when nobody works for it any more. Its files are still open. -/
def stopped (j : Job τ) : Job τ :=
  { j.dropped with
    processes := []
    helpers := []
    unread := []
    events := j.unread.map (fun u => Event.discarded u.1) ++ (j.helpers.map Event.joined ++
      (j.processes.map (fun p => Event.waited p.number) ++ j.dropped.events)) }

section

variable (j)

@[simp] theorem dropped_shell : j.dropped.shell = j.shell := by
  unfold dropped
  cases j.pending <;> rfl

@[simp] theorem dropped_keepGoing : j.dropped.keepGoing = j.keepGoing := by
  unfold dropped
  cases j.pending <;> rfl

@[simp] theorem dropped_files : j.dropped.files = j.files := by
  unfold dropped
  cases j.pending <;> rfl

@[simp] theorem dropped_fresh : j.dropped.fresh = j.fresh := by
  unfold dropped
  cases j.pending <;> rfl

@[simp] theorem dropped_processes : j.dropped.processes = j.processes := by
  unfold dropped
  cases j.pending <;> rfl

@[simp] theorem dropped_helpers : j.dropped.helpers = j.helpers := by
  unfold dropped
  cases j.pending <;> rfl

@[simp] theorem dropped_unread : j.dropped.unread = j.unread := by
  unfold dropped
  cases j.pending <;> rfl

@[simp] theorem stopped_shell : j.stopped.shell = j.shell :=
  j.dropped_shell

@[simp] theorem stopped_keepGoing : j.stopped.keepGoing = j.keepGoing :=
  j.dropped_keepGoing

@[simp] theorem stopped_files : j.stopped.files = j.files :=
  j.dropped_files

@[simp] theorem stopped_fresh : j.stopped.fresh = j.fresh :=
  j.dropped_fresh

end

theorem finish_of_not_stuck (h : ¬j.Stuck room) : finish room j = shutAll j.files j.stopped := by
  have hwait : ∀ p ∈ j.processes.reverse, j.dropped.blocks room p = false := by
    intro p hp
    exact Bool.eq_false_iff.mpr fun hb => h ⟨p, List.mem_reverse.mp hp, hb⟩
  simp only [finish, Attempt.bind_of_ok (dropPending_apply _),
    Attempt.bind_of_ok (Attempt.get_apply _), dropped_processes, dropped_helpers, dropped_unread,
    dropped_files, Attempt.bind_of_ok (waitAll_of_not_blocks hwait),
    Attempt.bind_of_ok (joinAll_apply _ _), Attempt.bind_of_ok (discardAll_apply _ _)]
  simp [stopped]

theorem finish_of_stuck (h : j.Stuck room) : ∃ before, before <+: j.processes.reverse ∧
    finish room j = .error .endless { j.dropped with
      events := (before.map fun p => Event.waited p.number).reverse ++ j.dropped.events } := by
  obtain ⟨p, hp, hblocks⟩ := h
  obtain ⟨before, hbefore, hwait⟩ :=
    waitAll_of_blocks ⟨p, List.mem_reverse.mpr hp, hblocks⟩
  refine ⟨before, hbefore, ?_⟩
  simp only [finish, Attempt.bind_of_ok (dropPending_apply _),
    Attempt.bind_of_ok (Attempt.get_apply _), dropped_processes, Attempt.bind_of_error hwait]

theorem finish_eq_ok {a : Unit} {j' : Job τ} : finish room j = .ok a j' ↔
    ¬j.Stuck room ∧ shutAll j.files j.stopped = .ok a j' := by
  by_cases hstuck : j.Stuck room
  · obtain ⟨before, -, hfinish⟩ := finish_of_stuck hstuck
    simp [hfinish, hstuck]
  · simp [finish_of_not_stuck hstuck, hstuck]

end

end PipelineShell.Job

theorem PipelineShell.Pipeline.execute_of_not_idle {τ : Type} {e : Engine τ} {p : Pipeline}
    {s : Shell τ} (hidle : p.isIdle = false) : p.execute e s =
      match Job.run e p (Job.start s) with
      | .ok _ j => .ok j.keepGoing j.shell
      | .error f j => .error f j.shell := by
  unfold execute
  exact if_neg (by simp [hidle])
