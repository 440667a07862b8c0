import PipelineShell.Proofs.Relays.Sizes
import PipelineShell.Proofs.Replay.Lines

/-! Engines whose relays read by different sizes. Under the same reads they do the same. As long as
something comes of the reads of both or of neither, they take a pipeline through the same states,
but for how much is left in a pipe where a relay found no room; that matters to nothing but the end
of the pipeline, which a process may hold up for ever. -/

namespace PipelineShell

open Relay

def Engine.moving {τ : Type} (e : Engine τ) (size : Int) : Engine τ :=
  { e with chunkSize := size }

/-- Two sizes of which nothing or of which something comes. -/
def Relay.Alike (host : Host) (a b : Int) : Prop :=
  Granted host a ↔ Granted host b

/-- Two sizes of which the same reads come. -/
def Relay.SameReads (host : Host) (a b : Int) : Prop :=
  readSize host a = readSize host b

theorem Relay.SameReads.alike {host : Host} {a b : Int} (h : SameReads host a b) :
    Relay.Alike host a b := by
  rw [Alike, Granted, Granted, h]

theorem Relay.SameReads.copy_eq {host : Host} {a b : Int} (h : SameReads host a b)
    (pieces : List ByteArray) : copy host b pieces = copy host a pieces := by
  rw [copy, copy, h]

namespace Job

open Attempt

variable {τ : Type} {e : Engine τ} {a b : Int} {c : Command} {last : Bool} {x y : Job τ}

section

variable (h : Relay.Alike e.host a b)

include h

theorem inputFor_moving (j : Job τ) : j.inputFor (e.moving b) = j.inputFor (e.moving a) := by
  have hjoined : ∀ pieces, joined (copy e.host b pieces) = joined (copy e.host a pieces) := by
    intro pieces
    by_cases ha : Granted e.host a
    · rw [joined_copy ha, joined_copy (h.mp ha)]
    · rw [copy_of_not_granted ha, copy_of_not_granted (mt h.mpr ha)]
  unfold inputFor
  cases j.pending with
  | stream pipe pieces => exact hjoined pieces
  | _ => rfl

theorem launchFor_moving (path : String) (out err : Option Nat) (j : Job τ) :
    launchFor (e.moving b) c last path out err j = launchFor (e.moving a) c last path out err j := by
  simp only [launchFor, inputFor_moving h]

theorem runProcess_moving : runProcess (e.moving b) c last = runProcess (e.moving a) c last := by
  have hlaunch : launch (e.moving b) c last = launch (e.moving a) c last := by
    funext path out err
    simp only [launch, launchFor_moving h]
    rfl
  rw [runProcess_eq, runProcess_eq, hlaunch]

theorem deed_moving (j : Job τ) : deed (e.moving b) c last j = deed (e.moving a) c last j := by
  simp only [deed, launchFor_moving h]

end

section

variable (h : SameReads e.host a b)

include h

theorem relayToFile_moving : relayToFile (e.moving b) = relayToFile (e.moving a) := by
  funext file pipe pieces
  simp only [relayToFile, Engine.moving, h.copy_eq]

theorem runEmpty_moving (r : Redirection) : runEmpty (e.moving b) r = runEmpty (e.moving a) r := by
  simp only [runEmpty, relayToFile_moving h]

/-- A step of a pipeline: a builtin does not meet the relay, and the two other kinds of stages do
the same with both. -/
theorem runStage_moving : runStage (e.moving b) c last = runStage (e.moving a) c last := by
  simp only [runStage, runEmpty_moving h, runProcess_moving h.alike]
  rfl

theorem runStages_moving (cs : List Command) :
    runStages (e.moving b) cs = runStages (e.moving a) cs := by
  induction cs with
  | nil => rfl
  | cons c cs ih => rw [runStages, runStages, runStage_moving h, ih]

theorem passing_moving (cs : List Command) :
    passing (e.moving b) cs = passing (e.moving a) cs := by
  induction cs with
  | nil => rfl
  | cons c cs ih => rw [passing, passing, runStage_moving h, ih]

theorem deeds_moving (cs : List Command) (j : Job τ) :
    deeds (e.moving b) cs j = deeds (e.moving a) cs j := by
  induction cs generalizing j with
  | nil => rfl
  | cons c cs ih =>
    rw [deeds, deeds, deed_moving h.alike, runStage_moving h]
    cases runStage (e.moving a) c cs.isEmpty j with
    | ok _ j' => simp only [ih]
    | error f j' => rfl

end

/-- The two jobs are the same, but for how much is left in each pipe that nobody reads. -/
inductive Beside (x : Job τ) : Job τ → Prop
  | intro (left : List (Nat × Nat)) (h : left.map (·.1) = x.unread.map (·.1)) :
      Beside x { x with unread := left }

theorem beside_self (x : Job τ) : Beside x x :=
  ⟨x.unread, rfl⟩

theorem beside_of_overlooks {α : Type} {step : Job.Step τ α}
    (hstep : ∀ goesOn h left, Overlooks (recast goesOn h left) step) : Respects Beside step := by
  rintro x _ ⟨left, hleft⟩
  have hgo := keepGoing_of_overlooks (fun goesOn h => hstep goesOn h id) x
  have hhistory := history_of_overlooks (fun goesOn h => hstep goesOn h id) x
  have hunread : (step.final x).unread = x.unread := by
    rw [← (hstep x.keepGoing x.shell.history fun _ => x.unread).final (s := x) rfl]
    rfl
  have hrecast : ∀ z : Job τ, z.keepGoing = x.keepGoing → z.shell.history = x.shell.history →
      recast x.keepGoing x.shell.history (fun _ => left) z = { z with unread := left } := by
    intro z hz hz'
    rw [← hz, ← hz']
    rfl
  rw [← hrecast x rfl rfl, hstep x.keepGoing x.shell.history (fun _ => left) x]
  unfold Attempt.final at hgo hhistory hunread
  cases hx : step x with
  | ok a z =>
    rw [hx] at hgo hhistory hunread
    exact .ok (hrecast z hgo hhistory ▸ ⟨left, hunread ▸ hleft⟩)
  | error f z =>
    rw [hx] at hgo hhistory hunread
    exact .error (hrecast z hgo hhistory ▸ ⟨left, hunread ▸ hleft⟩)

theorem beside_openDestination (d : Destination) :
    Respects Beside (openDestination d : Job.Step τ (Option Nat)) :=
  beside_of_overlooks fun _ _ _ => overlooks_openDestination d

/-- Two relays write the same to a file, and both find no room for it or neither. -/
theorem exists_putAll_copies {host : Host} (h : Relay.Alike host a b) (file : Nat)
    (pieces : List ByteArray) (x : Job τ) : ∃ left left' z,
      putAll file (copy host a pieces) x = .ok left z ∧
      putAll file (copy host b pieces) x = .ok left' z ∧ left.isSome = left'.isSome := by
  by_cases ha : Granted host a
  · have hb := h.mp ha
    have hput := congrFun (putAll_copy (τ := τ) ha pieces file) x
    have hput' := congrFun (putAll_copy (τ := τ) hb pieces file) x
    have hsame := hput.trans hput'.symm
    rw [Attempt.discard_apply, Attempt.discard_apply] at hsame
    suffices hleft : ∃ left left' z z', putAll file (copy host a pieces) x = .ok left z ∧
        putAll file (copy host b pieces) x = .ok left' z' ∧ left.isSome = left'.isSome by
      obtain ⟨left, left', z, z', hz, hz', hsome⟩ := hleft
      rw [hz, hz'] at hsame
      cases hsame
      exact ⟨left, left', z, hz, hz', hsome⟩
    cases hfile : x.file? file with
    | none => exact ⟨none, none, x, x, putAll_of_none hfile _, putAll_of_none hfile _, rfl⟩
    | some w =>
      by_cases hfull : w.OnFull x.shell.world.tree
      · rcases copy_cases ha pieces with ⟨hnone, hempty⟩ | ⟨read, reads, hcopy, hread, hmore⟩
        · rcases copy_cases hb pieces with ⟨hnone', -⟩ | ⟨_, _, -, -, hmore⟩
          · exact ⟨none, none, x, x, by rw [hnone]; rfl, by rw [hnone']; rfl, rfl⟩
          · simp [hmore] at hempty
        · rcases copy_cases hb pieces with ⟨-, hempty⟩ | ⟨read', reads', hcopy', hread', -⟩
          · simp [hmore] at hempty
          · exact ⟨some (joined reads).size, some (joined reads').size, _, _,
              hcopy ▸ putAll_of_onFull hfile hfull hread reads,
              hcopy' ▸ putAll_of_onFull hfile hfull hread' reads', rfl⟩
      · obtain ⟨z, hz⟩ := exists_putAll hfile hfull (copy host a pieces)
        obtain ⟨z', hz'⟩ := exists_putAll hfile hfull (copy host b pieces)
        exact ⟨none, none, z, z', hz, hz', rfl⟩
  · rw [copy_of_not_granted ha, copy_of_not_granted (mt h.mpr ha)]
    exact ⟨none, none, x, rfl, rfl, rfl⟩

section

variable (h : Relay.Alike e.host a b) (hxy : Beside x y)

include h hxy

theorem beside_relayToFile (file pipe : Nat) (pieces : List ByteArray) :
    Agree Beside Beside (relayToFile (e.moving a) file pipe pieces x)
      (relayToFile (e.moving b) file pipe pieces y) := by
  obtain ⟨left, left', z, hz, hz', hsome⟩ := exists_putAll_copies h file pieces x
  have hput := beside_of_overlooks
    (fun _ _ _ => overlooks_putAll file (copy e.host b pieces)) x y hxy
  rw [hz'] at hput
  generalize hy : putAll file (copy e.host b pieces) y = r at hput
  cases hput with
  | ok hzu =>
    obtain ⟨us, hus⟩ := hzu
    rw [relayToFile, relayToFile]
    refine cast (congrArg₂ (Agree Beside Beside) (bind_of_ok hz _).symm (bind_of_ok hy _).symm) ?_
    cases left <;> cases left' <;> try cases hsome
    · exact .ok ⟨us, hus⟩
    · exact .ok ⟨_ :: us, congrArg (pipe :: ·) hus⟩

theorem beside_takeIn (out : Option Nat) :
    Agree Beside Beside (takeIn (e.moving a) out x) (takeIn (e.moving b) out y) := by
  have hpending : ∀ {x y : Job τ}, Beside x y → y.pending = x.pending := by
    rintro x _ ⟨left, -⟩
    rfl
  cases out with
  | none => exact .ok hxy
  | some n =>
    have hpour : Agree Beside Beside (pour (e.moving a) n x.pending x)
        (pour (e.moving b) n x.pending y) := by
      cases x.pending with
      | nothing => exact .ok hxy
      | text s => exact beside_of_overlooks (fun _ _ _ => overlooks_onFile n _) _ _ hxy
      | stream pipe pieces =>
        refine Agree.bind (beside_of_overlooks (fun _ _ _ => overlooks_claim pipe .relay) _ _ hxy)
          fun _ x y hxy => Agree.bind
            (beside_of_overlooks (fun _ _ _ => overlooks_startHelper) _ _ hxy)
            fun _ x y hxy => beside_relayToFile h hxy n pipe pieces
    rw [takeIn, takeIn, bind_of_ok (get_apply _), bind_of_ok (get_apply _), hpending hxy]
    exact hpour.bind fun _ x y hxy =>
      beside_of_overlooks (fun _ _ _ => overlooks_setPending _) _ _ hxy

theorem beside_runEmpty (r : Redirection) :
    Agree Beside Beside (runEmpty (e.moving a) r x) (runEmpty (e.moving b) r y) := by
  rw [runEmpty_eq, runEmpty_eq]
  exact (beside_openDestination r.stderr x y hxy).bind fun _ _ _ hxy =>
    (beside_openDestination r.stdout _ _ hxy).bind fun out _ _ hxy => beside_takeIn h hxy out

omit h in
theorem beside_runBuiltin (tag : τ) : Agree Beside Beside (runBuiltin (e.moving a) tag c last x)
    (runBuiltin (e.moving b) tag c last y) := by
  obtain ⟨left, hleft⟩ := hxy
  have hshell : ({ x with unread := left } : Job τ).builtinShell last = x.builtinShell last := rfl
  have hinvoke : Shell.invoke (e.moving b) tag c = Shell.invoke (e.moving a) tag c := rfl
  rw [runBuiltin_apply, runBuiltin_apply, hshell, hinvoke]
  cases Shell.invoke (e.moving a) tag c (x.builtinShell last) with
  | ok goesOn u => exact .ok ⟨left, hleft⟩
  | error f u => exact .error ⟨left, hleft⟩

/-- A step of a pipeline: what is left in a pipe is of no interest to it. -/
theorem beside_runStage (c : Command) (last : Bool) : Agree Beside Beside
    (runStage (e.moving a) c last x) (runStage (e.moving b) c last y) := by
  cases hc : c.isEmpty with
  | true =>
    rw [runStage_of_isEmpty hc, runStage_of_isEmpty hc]
    exact beside_runEmpty h hxy c.redirection
  | false =>
    have hregistry : y.shell.registry = x.shell.registry := by
      obtain ⟨left, -⟩ := hxy
      rfl
    cases hb : x.shell.registry.isBuiltin c.name with
    | true =>
      obtain ⟨tag, htag⟩ := resolve_of_isBuiltin hb
      rw [runStage_of_resolve hc hb htag, runStage_of_resolve hc (hregistry ▸ hb) (hregistry ▸ htag)]
      exact beside_runBuiltin hxy tag
    | false =>
      rw [runStage_of_program hc hb, runStage_of_program hc (hregistry ▸ hb), runProcess_moving h]
      exact beside_of_overlooks (fun _ _ _ => overlooks_runProcess c last) _ _ hxy

theorem beside_runStages (cs : List Command) : Agree Beside Beside
    (runStages (e.moving a) cs x) (runStages (e.moving b) cs y) := by
  induction cs generalizing x y with
  | nil => exact .ok hxy
  | cons c cs ih => exact (beside_runStage h hxy c _).bind fun _ _ _ hxy => ih hxy

theorem beside_passing (cs : List Command) : Agree Beside Beside
    (passing (e.moving a) cs x) (passing (e.moving b) cs y) := by
  induction cs generalizing x y with
  | nil => exact .ok hxy
  | cons c cs ih => exact (beside_runStage h hxy c _).bind fun _ _ _ hxy => ih hxy

theorem deed_beside (c : Command) (last : Bool) :
    deed (e.moving b) c last y = deed (e.moving a) c last x := by
  have hopening : Agree Beside Beside (opening c x) (opening c y) :=
    (beside_openDestination _ x y hxy).bind fun _ _ _ hxy =>
      (beside_openDestination _ _ _ hxy).bind fun _ _ _ hxy => .ok hxy
  obtain ⟨left, -⟩ := hxy
  have hregistry : ({ x with unread := left } : Job τ).shell.registry = x.shell.registry := rfl
  have hlocate : ({ x with unread := left } : Job τ).shell.locate c.name =
    x.shell.locate c.name := rfl
  have hbuiltin : ({ x with unread := left } : Job τ).builtinShell last = x.builtinShell last := rfl
  rw [deed_moving h]
  unfold deed
  rw [hregistry, hlocate, hbuiltin]
  generalize opening c x = v at hopening
  generalize opening c { x with unread := left } = w at hopening
  cases x.shell.locate c.name with
  | none => rfl
  | some path =>
    cases hopening with
    | ok hxy =>
      obtain ⟨left, -⟩ := hxy
      rfl
    | error _ => rfl

theorem deeds_beside (cs : List Command) :
    deeds (e.moving b) cs y = deeds (e.moving a) cs x := by
  induction cs generalizing x y with
  | nil => rfl
  | cons c cs ih =>
    have hstage := beside_runStage h hxy c cs.isEmpty
    rw [deeds, deeds, deed_beside h hxy]
    generalize runStage (e.moving a) c cs.isEmpty x = v at hstage
    generalize runStage (e.moving b) c cs.isEmpty y = w at hstage
    cases hstage with
    | ok hxy => simp only [ih hxy]
    | error _ => rfl

end

theorem finish_beside {room : Nat} (hxy : Beside x y) (hx : ¬x.Stuck room) (hy : ¬y.Stuck room) :
    finish room y = finish room x := by
  obtain ⟨left, hleft⟩ := hxy
  have hdropped : ({ x with unread := left } : Job τ).dropped =
      { x.dropped with unread := left } := by
    obtain ⟨shell, pending⟩ := x
    cases pending <;> rfl
  have hdiscarded : left.map (fun u => Event.discarded u.1) =
      x.unread.map fun u => Event.discarded u.1 := by
    have hevents := congrArg (List.map Event.discarded) hleft
    rwa [List.map_map, List.map_map] at hevents
  have hstopped : ({ x with unread := left } : Job τ).stopped = x.stopped := by
    simp only [stopped, hdropped, hdiscarded]
  rw [finish_of_not_stuck hx, finish_of_not_stuck hy, hstopped]

end Job

/-- The pipeline waits for ever. -/
def Pipeline.NeverEnds {τ : Type} (e : Engine τ) (p : Pipeline) (s : Shell τ) : Prop :=
  ∃ t, p.execute e s = .error .endless t

section

variable {τ : Type} {e : Engine τ} {a b : Int}

theorem Job.run_beside (h : Relay.Alike e.host a b) (p : Pipeline) (j : Job τ) :
    run (e.moving b) p j = run (e.moving a) p j ∨
      (∃ t, run (e.moving a) p j = .error .endless t) ∨
        ∃ t, run (e.moving b) p j = .error .endless t := by
  have hbody : Attempt.Agree Beside Beside ((runStages (e.moving a) p.stages >>= fun _ => emit) j)
      ((runStages (e.moving b) p.stages >>= fun _ => emit) j) :=
    (beside_runStages h (beside_self j) p.stages).bind fun _ x y hxy =>
      beside_of_overlooks (fun _ _ _ => overlooks_emit) x y hxy
  by_cases ha : ((runStages (e.moving a) p.stages >>= fun _ => emit).final j).Stuck e.host.pipeRoom
  · exact .inr (.inl (run_endless_iff_body.mpr ha))
  by_cases hb : ((runStages (e.moving b) p.stages >>= fun _ => emit).final j).Stuck e.host.pipeRoom
  · exact .inr (.inr (run_endless_iff_body.mpr hb))
  refine .inl ?_
  have hrun : ∀ size, run (e.moving size) p j = ((runStages (e.moving size) p.stages >>= fun _ =>
      emit).ensure (finish e.host.pipeRoom)) j := fun _ => rfl
  rw [hrun, hrun]
  unfold Attempt.ensure
  unfold Attempt.final at ha hb
  generalize (runStages (e.moving a) p.stages >>= fun _ => emit) j = v at hbody ha
  generalize (runStages (e.moving b) p.stages >>= fun _ => emit) j = w at hbody hb
  cases hbody with
  | ok hxy =>
    dsimp only
    rw [finish_beside hxy ha hb]
  | error hxy =>
    dsimp only
    rw [finish_beside hxy ha hb]

theorem Pipeline.execute_beside (h : Relay.Alike e.host a b) (p : Pipeline) (s : Shell τ) :
    p.execute (e.moving b) s = p.execute (e.moving a) s ∨
      p.NeverEnds (e.moving a) s ∨ p.NeverEnds (e.moving b) s := by
  cases hidle : p.isIdle with
  | true => simp [execute, hidle]
  | false =>
    unfold NeverEnds
    rw [execute_of_not_idle hidle, execute_of_not_idle hidle]
    rcases Job.run_beside h p (Job.start s) with hsame | ⟨t, ht⟩ | ⟨t, ht⟩
    · exact .inl (by rw [hsame])
    · exact .inr (.inl ⟨t.shell, by rw [ht]⟩)
    · exact .inr (.inr ⟨t.shell, by rw [ht]⟩)

end

/-- Both engines run every pipeline alike: it ends in the same way and in the same state, each stage
begins in the same job, and each builtin and each process gets the same to read. -/
structure Engine.Agree {τ : Type} (e e' : Engine τ) : Prop where
  execute : ∀ (p : Pipeline) (s : Shell τ), p.execute e' s = p.execute e s
  passing : ∀ (cs : List Command) (s : Shell τ),
    Job.passing e' cs (Job.start s) = Job.passing e cs (Job.start s)
  deeds : ∀ (p : Pipeline) (s : Shell τ),
    Job.deeds e' p.stages (Job.start s) = Job.deeds e p.stages (Job.start s)

/-- Both engines run every pipeline alike, unless it never ends with one of them: even then each
stage begins in the same job, but for how much is left in the pipes, and each builtin and each
process gets the same to read. -/
structure Engine.Concurs {τ : Type} (e e' : Engine τ) : Prop where
  execute : ∀ (p : Pipeline) (s : Shell τ), p.execute e' s = p.execute e s ∨
    p.NeverEnds e s ∨ p.NeverEnds e' s
  passing : ∀ (cs : List Command) (s : Shell τ), Attempt.Agree Job.Beside Job.Beside
    (Job.passing e cs (Job.start s)) (Job.passing e' cs (Job.start s))
  deeds : ∀ (p : Pipeline) (s : Shell τ),
    Job.deeds e' p.stages (Job.start s) = Job.deeds e p.stages (Job.start s)

namespace Engine

variable {τ : Type} {e : Engine τ} {a b : Int}

theorem agree_of_sameReads (h : Relay.SameReads e.host a b) : (e.moving a).Agree (e.moving b) where
  execute p s := by
    have hroom : (e.moving b).host.pipeRoom = (e.moving a).host.pipeRoom := rfl
    simp only [Pipeline.execute, Job.run, Job.runStages_moving h, hroom]
  passing cs _ := by rw [Job.passing_moving h]
  deeds _ _ := Job.deeds_moving h _ _

theorem concurs_of_alike (h : Relay.Alike e.host a b) : (e.moving a).Concurs (e.moving b) where
  execute := Pipeline.execute_beside h
  passing cs _ := Job.beside_passing h (Job.beside_self _) cs
  deeds p _ := Job.deeds_beside h (Job.beside_self _) p.stages

end Engine

end PipelineShell
