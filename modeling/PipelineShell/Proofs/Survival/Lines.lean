import PipelineShell.Proofs.Holdings.Jobs
import PipelineShell.Proofs.Survival.Faults

/-! Which lines end the shell. A line gives back whether the shell goes on, unless it waits for ever
for a process, or one of its stages fails unreported, or a file that it closes owes bytes to the
full device. -/

namespace PipelineShell

namespace Job

open Shell

variable {τ α : Type} {e : Engine τ} {cs : List Command} {j j' : Job τ}

/-- The stages, from the left, come to one that fails in a way that nothing reports. -/
inductive Chokes (e : Engine τ) : List Command → Job τ → Prop
  | here {c : Command} {cs : List Command} {j : Job τ} (h : StageChokes e c cs.isEmpty j) :
      Chokes e (c :: cs) j
  | later {c : Command} {cs : List Command} {j j' : Job τ}
      (hstage : runStage e c cs.isEmpty j = .ok () j') (h : Chokes e cs j') : Chokes e (c :: cs) j

theorem runStages_fails_iff (he : e.OnlyRoams) (hw : j.shell.wiring = .own) :
    Attempt.Fails Failure.Escapes (runStages e cs) j ↔ Chokes e cs j := by
  induction cs generalizing j with
  | nil => exact iff_of_false (Attempt.not_fails_pure _ _) nofun
  | cons c cs ih =>
    rw [runStages, Attempt.fails_bind, runStage_fails_iff he hw]
    constructor
    · rintro (h | ⟨_, j₁, hstage, h⟩)
      · exact .here h
      · have hw' := ((orderly_runStage he c _).ok hstage).rests.wiring.trans hw
        exact .later hstage ((ih hw').mp h)
    · rintro (h | ⟨hstage, h⟩)
      · exact .inl h
      · have hw' := ((orderly_runStage he c _).ok hstage).rests.wiring.trans hw
        exact .inr ⟨_, _, hstage, (ih hw').mpr h⟩

/-- A file that is open at the end owes bytes to the full device. -/
def Owing (j : Job τ) : Prop :=
  ∃ f ∈ j.files, f.2.Owes j.shell.world.tree

theorem shutAll_fails_iff {fs : List (Nat × BlockWriter)} (hj : j.Numbered)
    (hfs : ∀ f ∈ fs, f ∈ j.files) (hn : (fs.map (·.1)).Nodup) :
    Attempt.Fails Failure.Escapes (shutAll fs) j ↔ ∃ f ∈ fs, f.2.Owes j.shell.world.tree := by
  induction fs generalizing j with
  | nil => exact iff_of_false (Attempt.not_fails_modify _ _) (by simp)
  | cons f fs ih =>
    obtain ⟨hf, hn⟩ := List.nodup_cons.mp hn
    have hfile := hj.file?_eq_some_iff.mpr (hfs f (List.mem_cons_self ..))
    have hescapes : Attempt.Throws Failure.Escapes (shutAll fs : Job.Step τ Unit) :=
      (throws_shutAll fs).mono fun _ => Full.escapes
    rw [shutAll, Attempt.fails_ensure hescapes,
      Attempt.fails_ensure_of_never (noted_note _).quiet.never, onFile_fails_iff hfile BlockWriter.throws_flush, BlockWriter.flush_fails_iff,
      Attempt.final_ensure, final_onFile hfile]
    have hstays := BlockWriter.keeps_flush (f.2, j.shell.world.tree)
    generalize BlockWriter.flush.final (f.2, j.shell.world.tree) = p at hstays
    have hset := hj.setFile f.1 p.1 p.2
    have hmem : ∀ g ∈ fs, g ∈ (j.setFile f.1 p.1 p.2).files := fun g hg =>
      mem_files_setFile (hfs g (List.mem_cons_of_mem f hg))
        (fun he => hf (List.mem_map.mpr ⟨g, hg, he⟩)) _ _
    have hrest : Attempt.Fails Failure.Escapes (shutAll fs)
        ((note (.shut f.1)).final (j.setFile f.1 p.1 p.2)) ↔
          ∃ g ∈ fs, g.2.Owes j.shell.world.tree := by
      refine (ih (j := (note (.shut f.1)).final (j.setFile f.1 p.1 p.2))
        ⟨hset.nodup, hset.below⟩ hmem hn).trans ?_
      exact exists_congr fun g => and_congr_right fun _ =>
        and_congr_left fun _ => hstays.2 g.2.place .full
    rw [hrest]
    simp

theorem finish_fails_iff {room : Nat} (hj : j.Numbered) (h : ¬j.Stuck room) :
    Attempt.Fails Failure.Escapes (finish room) j ↔ j.Owing := by
  have hshut : Attempt.Fails Failure.Escapes (finish room) j ↔
      Attempt.Fails Failure.Escapes (shutAll j.files) j.stopped := by
    unfold Attempt.Fails
    rw [finish_of_not_stuck h]
  have hstopped : j.stopped.Numbered :=
    ⟨j.stopped_files ▸ hj.nodup, fun f hf =>
      j.stopped_fresh ▸ hj.below f (j.stopped_files ▸ hf)⟩
  rw [hshut, shutAll_fails_iff hstopped (fun _ hf => j.stopped_files ▸ hf) hj.nodup, stopped_shell]
  exact Iff.rfl

/-- Nothing goes wrong when the shell's own output takes what is pending, and the processes wait for
as much as before. -/
theorem exists_emit (hw : j.shell.wiring = .own) : ∃ j', emit j = .ok () j' ∧ Orderly j j' ∧
    j'.files = j.files ∧ j'.shell.world = j.shell.world ∧
    ∀ room, j'.Stuck room ↔ j.Stuck room := by
  have hout : j.shell.wiring.stdout = .output := by rw [hw]; rfl
  rw [emit_eq, Attempt.bind_of_ok (Attempt.get_apply _), hout]
  obtain ⟨shell, pending⟩ := j
  cases pending with
  | nothing => exact ⟨_, rfl, refl_of Orderly _, rfl, rfl, fun _ => Iff.rfl⟩
  | text s =>
    refine ⟨_, rfl, orderly_of_shell ?_ rfl rfl rfl, rfl, rfl, fun _ => Iff.rfl⟩
    exact rests_of_tree rfl rfl (.same rfl rfl) rfl
  | stream pipe pieces =>
    refine ⟨_, rfl, ⟨rests_of_tree rfl rfl (.same rfl rfl) rfl, fun hj => ⟨hj.nodup, fun f hf => ?_⟩,
      fun _ => id⟩, rfl, rfl, fun _ => Iff.rfl⟩
    exact Nat.lt_succ_of_lt (hj.below f hf)

theorem run_endless_iff_body {p : Pipeline} : (∃ i, run e p j = .error .endless i) ↔
    ((runStages e p.stages >>= fun _ => emit).final j).Stuck e.host.pipeRoom := by
  have hbody : ∀ t, (runStages e p.stages >>= fun _ => emit) j ≠ .error .endless t := by
    intro t ht
    have hknown : Known .endless := Attempt.Throws.bind (known_runStages p.stages)
      (fun _ => throws_emit.mono fun _ h => .inr (.inr h)) _ _ _ ht
    rcases hknown with ⟨_, h⟩ | h | h <;> cases h
  constructor
  · rintro ⟨t, ht⟩
    refine Classical.byContradiction fun hno => ?_
    rcases Attempt.ensure_eq_error.mp ht with h | ⟨u, h, -⟩
    · rw [finish_of_not_stuck hno] at h
      cases throws_shutAll _ _ _ _ h
    · exact hbody u h
  · intro hstuck
    obtain ⟨before, -, hfinish⟩ := finish_of_stuck hstuck
    exact ⟨_, Attempt.ensure_eq_error.mpr (.inl hfinish)⟩

section

variable {p : Pipeline} (he : e.OnlyRoams) (hw : j.shell.wiring = .own)

include he hw

theorem exists_body : ∃ i, (runStages e p.stages >>= fun _ => emit).final j = i ∧
    (∀ room, i.Stuck room ↔ ((runStages e p.stages).final j).Stuck room) ∧
    (i.Owing ↔ ((runStages e p.stages).final j).Owing) ∧ (j.Numbered → i.Numbered) ∧
    (Attempt.Fails Failure.Escapes (runStages e p.stages >>= fun _ => emit) j ↔
      Chokes e p.stages j) := by
  have hend := orderly_runStages he p.stages j
  refine ⟨_, rfl, ?_⟩
  rw [← runStages_fails_iff he hw]
  cases hstages : runStages e p.stages j with
  | error f j₁ =>
    rw [Attempt.final_of_error hstages] at hend ⊢
    rw [Attempt.final_bind_of_error hstages, Attempt.fails_bind]
    exact ⟨fun _ => Iff.rfl, Iff.rfl, hend.numbered, by simp [hstages]⟩
  | ok a j₁ =>
    rw [Attempt.final_of_ok hstages] at hend ⊢
    obtain ⟨j₂, hemit, horder, hfiles, hworld, hstuck⟩ := exists_emit (hend.rests.wiring.trans hw)
    rw [Attempt.fails_bind_of_ok hstages, Attempt.final_bind_of_ok hstages,
      Attempt.final_of_ok hemit]
    refine ⟨hstuck, by rw [Owing, Owing, hfiles, hworld], fun hj => horder.numbered
      (hend.numbered hj), iff_of_false (Attempt.not_fails_of_ok hemit)
      (Attempt.not_fails_of_ok hstages)⟩

/-- A run waits for ever just when a process of it does not end. -/
theorem run_endless_iff : (∃ i, run e p j = .error .endless i) ↔
    ((runStages e p.stages).final j).Stuck e.host.pipeRoom := by
  obtain ⟨i, hi, hstuck, -, -, -⟩ := exists_body (p := p) he hw
  rw [run_endless_iff_body, hi, hstuck]

theorem run_fails_iff (hj : j.Numbered)
    (h : ¬((runStages e p.stages).final j).Stuck e.host.pipeRoom) :
    Attempt.Fails Failure.Escapes (run e p) j ↔
      Chokes e p.stages j ∨ ((runStages e p.stages).final j).Owing := by
  obtain ⟨i, hi, hstuck, howing, hnumbered, hfails⟩ := exists_body (p := p) he hw
  rw [run, Attempt.fails_ensure (escapes_finish _), hi, hfails,
    finish_fails_iff (hnumbered hj) (mt (hstuck _).mp h), howing]

end

end Job

section

variable {τ : Type} {e : Engine τ} {s : Shell τ}

/-- A pipeline ends the shell: a stage fails unreported, or a file owes bytes when it is closed. -/
def Pipeline.Chokes (e : Engine τ) (p : Pipeline) (s : Shell τ) : Prop :=
  p.isIdle = false ∧ (Job.Chokes e p.stages (Job.start s) ∨
    ((Job.runStages e p.stages).final (Job.start s)).Owing)

/-- A pipeline waits for ever: a process wrote more than there is room for to a pipe that was left
unread. -/
def Pipeline.Stalls (e : Engine τ) (p : Pipeline) (s : Shell τ) : Prop :=
  p.isIdle = false ∧
    ((Job.runStages e p.stages).final (Job.start s)).Stuck e.host.pipeRoom

theorem Pipeline.execute_endless_iff (he : e.OnlyRoams) {p : Pipeline} (hw : s.wiring = .own) :
    (∃ t, p.execute e s = .error .endless t) ↔ p.Stalls e s := by
  have hrun := Job.run_endless_iff he (p := p) (j := Job.start s) hw
  rw [Pipeline.Stalls, ← hrun]
  unfold Pipeline.execute
  cases p.isIdle with
  | true => simp
  | false => cases Job.run e p (Job.start s) <;> simp

theorem Pipeline.execute_fails_iff (he : e.OnlyRoams) {p : Pipeline} (hw : s.wiring = .own)
    (h : ¬p.Stalls e s) : Attempt.Fails Failure.Escapes (p.execute e) s ↔ p.Chokes e s := by
  unfold Pipeline.Chokes
  unfold Pipeline.Stalls at h
  unfold Attempt.Fails Pipeline.execute
  cases hidle : p.isIdle with
  | true => simp
  | false =>
    rw [← Job.run_fails_iff he hw (Job.Numbered.start s) fun hstuck => h ⟨hidle, hstuck⟩]
    unfold Attempt.Fails
    cases Job.run e p (Job.start s) <;> simp

namespace Shell

def noted (s : Shell τ) (line : String) : Shell τ :=
  { s with history := s.history.add (Pipeline.parse line) }

def LineChokes (e : Engine τ) (line : String) (s : Shell τ) : Prop :=
  (Pipeline.parse line).Chokes e (s.noted line)

def LineStalls (e : Engine τ) (line : String) (s : Shell τ) : Prop :=
  (Pipeline.parse line).Stalls e (s.noted line)

theorem runLine_of_isIdle {line : String} (h : (Pipeline.parse line).isIdle = true) :
    runLine e line s = .ok true s := by
  simp [runLine, h]

theorem runLine_apply {line : String} (h : (Pipeline.parse line).isIdle = false) :
    runLine e line s = ((Pipeline.parse line).execute e).handle report (s.noted line) := by
  simp [runLine, h, Attempt.bind_apply, noted]

theorem report_eq_some {f : Failure} {y : Shell.Step τ Bool} : report f = some y ↔
    ∃ g, f = .shell g ∧ y = complain f.message >>= fun _ => pure true := by
  cases f with
  | shell g =>
    constructor
    · rintro ⟨⟩
      exact ⟨g, rfl, rfl⟩
    · rintro ⟨_, _, rfl⟩
      rfl
  | _ => simp [report]

theorem complain_of_own {m : String} (hw : s.wiring = .own) :
    complain m s = .ok () { s with errors := s.errors.write (m ++ "\n") } := by
  have herr : s.wiring.stderr = .errors := by rw [hw]; rfl
  rw [complain_apply, herr]
  simp [writeTo, Attempt.bind_apply]

theorem runLine_of_reported {line : String} {g : ShellFailure} {t : Shell τ}
    (ht : t.wiring = .own) (hp : (Pipeline.parse line).isIdle = false)
    (h : (Pipeline.parse line).execute e (s.noted line) = .error (.shell g) t) :
    runLine e line s = .ok true { t with errors := t.errors.write (g.message ++ "\n") } := by
  rw [runLine_apply hp, Attempt.handle_of_some h (report_eq_some.mpr ⟨g, rfl, rfl⟩),
    Attempt.bind_of_ok (complain_of_own ht)]
  rfl

theorem runLine_of_shell (he : e.OnlyRoams) {line : String} {g : ShellFailure} {t : Shell τ}
    (hw : s.wiring = .own) (hp : (Pipeline.parse line).isIdle = false)
    (h : (Pipeline.parse line).execute e (s.noted line) = .error (.shell g) t) :
    runLine e line s = .ok true { t with errors := t.errors.write (g.message ++ "\n") } :=
  runLine_of_reported (((Pipeline.rests_execute he _).error h).wiring.trans hw) hp h

theorem runLine_eq_error (he : e.OnlyRoams) {line : String} (hw : s.wiring = .own) {f : Failure}
    {t : Shell τ} : runLine e line s = .error f t ↔
      (Pipeline.parse line).execute e (s.noted line) = .error f t ∧ f.Escapes := by
  cases hp : (Pipeline.parse line).isIdle with
  | true => simp [runLine_of_isIdle hp, Pipeline.execute, hp]
  | false =>
    cases h : (Pipeline.parse line).execute e (s.noted line) with
    | ok b t =>
      rw [runLine_apply hp, Attempt.handle_of_ok h]
      simp
    | error g u =>
      cases g with
      | shell g =>
        rw [runLine_of_shell he hw hp h]
        constructor
        · rintro ⟨⟩
        · rintro ⟨⟨⟩, hf⟩
          exact (hf g rfl).elim
      | _ =>
        rw [runLine_apply hp, Attempt.handle_of_none h rfl]
        constructor
        · rintro ⟨⟩
          exact ⟨rfl, nofun⟩
        · exact fun h => h.1

theorem runLine_endless_iff (he : e.OnlyRoams) {line : String} (hw : s.wiring = .own) :
    (∃ t, runLine e line s = .error .endless t) ↔ LineStalls e line s := by
  have hescapes : Failure.Escapes .endless := nofun
  rw [LineStalls, ← Pipeline.execute_endless_iff he (s := s.noted line) hw]
  simp only [runLine_eq_error he hw, hescapes, and_true]

/-- A line ends in a failure just when it chokes, unless it never ends. -/
theorem runLine_fails_iff (he : e.OnlyRoams) {line : String} (hw : s.wiring = .own)
    (h : ¬LineStalls e line s) : (∃ f t, runLine e line s = .error f t) ↔ LineChokes e line s := by
  rw [LineChokes, ← Pipeline.execute_fails_iff he (s := s.noted line) hw h]
  simp only [runLine_eq_error he hw]
  exact Iff.rfl

theorem throws_runLine (line : String) :
    Attempt.Throws (fun f => f = .fault .nulByte ∨ Full f ∨ f = .endless) (runLine e line) := by
  intro s f t h
  cases hp : (Pipeline.parse line).isIdle with
  | true =>
    rw [runLine_of_isIdle hp] at h
    cases h
  | false =>
    rw [runLine_apply hp] at h
    rcases Attempt.handle_eq_error.mp h with ⟨hf, hnone⟩ | ⟨g, u, y, _, hy, hyu⟩
    · rcases Pipeline.known_execute _ _ _ _ _ hf with rfl | ⟨g, rfl⟩ | hf | hf
      · exact .inr (.inr rfl)
      · cases hnone
      · exact .inl hf
      · exact .inr (.inl hf)
    · obtain ⟨_, _, rfl⟩ := report_eq_some.mp hy
      exact .inr (.inl (((throws_complain _).bind fun _ => Attempt.throws_pure _) _ _ _ hyu))

/-! A stream of the shell's own without room. -/

section

variable {c : Command} {tag : τ} {atOnce : Bool}

/-- What a builtin has written to such a stream is not let out, and the failure is not reported. -/
theorem invoke_of_full (he : e.OnlyRoams) (hr : c.redirection = .none)
    (hw : s.wiring.stdout = .full atOnce)
    (hwaits : (((e.handler tag c.args).handle (reportAs c.name)).final s).waiting ≠ "") :
    ∃ t, invoke e tag c s = .error (.fault (.refused .noSpace)) t := by
  have hwiring := (rests_reported he tag c s).wiring
  have hflush : (do flush (← get).wiring.stdout : Shell.Step τ Unit)
      (((e.handler tag c.args).handle (reportAs c.name)).final s) =
        .error (.fault (.refused .noSpace))
          (((e.handler tag c.args).handle (reportAs c.name)).final s) := by
    rw [Attempt.bind_of_ok (Attempt.get_apply _), hwiring, hw, flush_full_apply,
      if_neg (by simpa using hwaits)]
  have hcalled := Attempt.ensure_eq_error.mpr (.inl hflush)
  refine ⟨{ ((e.handler tag c.args).handle (reportAs c.name)).final s with
    wiring := s.wiring }, ?_⟩
  unfold invoke redirected
  simp only [hr, Redirection.none, toDestination, bound, rewire, Option.isSome_none,
    Bool.false_eq_true, if_false, hcalled]

theorem runLine_of_full (he : e.OnlyRoams) {line : String}
    (hp : (Pipeline.parse line).stages = [c]) (hc : c.isEmpty = false) (hr : c.redirection = .none)
    (hb : s.registry.isBuiltin c.name = true) (htag : s.registry.resolve c.name = .ok tag)
    (hw : s.wiring.stdout = .full atOnce)
    (hwaits : (((e.handler tag c.args).handle (reportAs c.name)).final
      { s.noted line with given := "", captured := "" }).waiting ≠ "") :
    ∃ t, runLine e line s = .error (.fault (.refused .noSpace)) t := by
  obtain ⟨t, hinvoke⟩ :=
    invoke_of_full (s := { s.noted line with given := "", captured := "" }) he hr hw hwaits
  have hidle : (Pipeline.parse line).isIdle = false := by
    have hfirst : (Pipeline.parse line).first = c := (List.cons.inj hp).1
    simp [Pipeline.isIdle, hfirst, hc]
  have hshell : (Job.start (s.noted line)).builtinShell true =
      { s.noted line with given := "", captured := "" } := rfl
  have hstages : Job.runStages e (Pipeline.parse line).stages (Job.start (s.noted line)) =
      .error (.fault (.refused .noSpace)) { Job.start (s.noted line) with
        shell := { t with wiring := s.wiring } } := by
    have hstage : Job.runStage e c true (Job.start (s.noted line)) = _ :=
      Job.runStage_of_resolve (j := Job.start (s.noted line)) hc hb htag
    rw [Job.runBuiltin_apply, hshell, hinvoke] at hstage
    rw [hp, Job.runStages]
    exact Attempt.bind_of_error hstage _
  have hrun : Job.run e (Pipeline.parse line) (Job.start (s.noted line)) =
      .error (.fault (.refused .noSpace)) { Job.start (s.noted line) with
        shell := { t with wiring := s.wiring } } :=
    Attempt.ensure_eq_error.mpr (.inr ⟨_, Attempt.bind_of_error hstages _, rfl⟩)
  refine ⟨{ t with wiring := s.wiring }, ?_⟩
  rw [runLine_apply hidle]
  refine Attempt.handle_of_none ?_ rfl
  simp only [Pipeline.execute, hidle, hrun]
  rfl

end

end Shell

end

end PipelineShell
