import PipelineShell.Proofs.Survival.Lines

/-! The end of a job. The processes are waited for when no pipe is in use any more, and nothing is
held after that, unless one of them waits for somebody to read what it writes. -/

namespace PipelineShell

namespace Job

open Attempt Holdings

variable {τ α : Type} {e : Engine τ} {j : Job τ} {past : List Event} {room : Nat}

theorem using_dropped (hj : j.Accounted past) : j.dropped.Using past none [] j.fresh := by
  have hj' := hj.using
  have hfinal : j.dropped = dropPending.final j := by rw [final, dropPending_apply]
  rw [hfinal, dropPending, final_bind_of_ok (get_apply _)]
  cases hp : j.pending with
  | nothing =>
    rw [hp] at hj'
    exact hj'
  | text s =>
    rw [hp] at hj'
    exact hj'
  | stream pipe pieces =>
    rw [hp] at hj'
    exact ((using_claim pipe .drop).bind_of_never (quiet_claim _ _).never
      fun _ => using_closePipe [] pipe []) j hj'

theorem held_stopped (j : Job τ) : j.stopped.held = Function.update (Function.update
    (Function.update j.dropped.held .process []) .helper []) .spare [] := by
  funext k
  cases k <;> rfl

/-- Once no pipe is in use the processes can be waited for, and then the helpers have nothing left
to do. -/
theorem replay_stopped (hj : j.Accounted past) : past <:+ j.stopped.events ∧
    ∃ next, replay (turns j.stopped.events) = some ⟨j.stopped.held, next⟩ := by
  have hdropped := using_dropped hj
  obtain ⟨next, hreplay, -⟩ := hdropped.told
  have hpipes : j.dropped.held .pipe = [] := hdropped.pipes
  have hwaited := replay_all_leave (k := .process) (by simp [Kind.awaited, hpipes]) hreplay
  have hjoined := replay_all_leave (k := .helper) (by simp [Kind.awaited]) hwaited
  have hdiscarded := replay_all_leave (k := .spare) (by simp [Kind.awaited]) hjoined
  have hevents : j.stopped.events = (j.dropped.held .spare).map .discarded ++
      ((j.dropped.held .helper).map .joined ++
        ((j.dropped.held .process).map .waited ++ j.dropped.events)) := by
    simp [stopped, held, Function.comp_def]
  refine ⟨?_, next, ?_⟩
  · rw [hevents, ← List.append_assoc, ← List.append_assoc]
    exact hdropped.grown.trans (List.suffix_append _ _)
  · rw [hevents, held_stopped, turns_map_append fun _ => rfl, turns_map_append fun _ => rfl,
      turns_map_append fun _ => rfl]
    exact hdiscarded

/-- The files are shut, the one that was opened last at first. -/
theorem held_shutAll {held : Kind → List Nat} {next : Kind → Nat} (hhelper : held .helper = [])
    (hspare : held .spare = []) (fs : List (Nat × BlockWriter)) (j : Job τ)
    (h : replay (turns j.events) = some ⟨Function.update held .file (fs.map (·.1)), next⟩) :
    j.events <:+ ((shutAll fs).final j).events ∧
      replay (turns ((shutAll fs).final j).events) = some ⟨Function.update held .file [], next⟩ ∧
      ((shutAll fs).final j).held = Function.update j.held .file [] := by
  induction fs generalizing j with
  | nil =>
    refine ⟨List.suffix_refl _, h, ?_⟩
    funext k
    cases k <;> rfl
  | cons f fs ih =>
    have hflush := unmoved_onFile f.1 BlockWriter.flush j
    rw [shutAll, final_ensure, final_ensure]
    generalize (onFile f.1 BlockWriter.flush).final j = i at hflush ⊢
    have hshut : replay (turns (.shut f.1 :: i.events)) =
        some ⟨Function.update held .file (fs.map (·.1)), next⟩ := by
      rw [hflush.events]
      refine replay_cons_iff.mpr ⟨_, h, after_leaves_iff.mpr ⟨by simp, fun k hk => ?_, by simp⟩⟩
      rcases List.mem_cons.mp hk with rfl | hk
      · simpa using hhelper
      · cases List.mem_singleton.mp hk
        simpa using hspare
    have hheld : ({ i with events := .shut f.1 :: i.events } : Job τ).held = j.held := by
      rw [← hflush.held]
      funext k
      cases k <;> rfl
    obtain ⟨hgrown, hrest⟩ := ih { i with events := .shut f.1 :: i.events } hshut
    rw [hheld] at hrest
    exact ⟨hflush.events ▸ (List.suffix_cons (.shut f.1) i.events).trans hgrown, hrest⟩

/-- Nothing is held any more: whatever was taken hold of was let go. -/
structure Released (j : Job τ) : Prop where
  held : j.held = fun _ => []
  told : ∃ next, replay (turns j.events) = some ⟨fun _ => [], next⟩
  left : ∀ k n, left k n (turns j.events) = taken k n (turns j.events)

theorem released_of_replay {next : Kind → Nat} (hheld : j.held = fun _ => [])
    (h : replay (turns j.events) = some ⟨fun _ => [], next⟩) : j.Released where
  held := hheld
  told := ⟨next, h⟩
  left k n := by simpa using (taken_eq h k n).symm

theorem released_finish (hj : j.Accounted past) (h : ¬j.Stuck room) :
    ((finish room : Job.Step τ Unit).final j).Released ∧
      past <:+ ((finish room : Job.Step τ Unit).final j).events := by
  obtain ⟨hgrown, next, hreplay⟩ := replay_stopped hj
  have hend : (finish room : Job.Step τ Unit).final j = (shutAll j.files).final j.stopped := by
    rw [final, finish_of_not_stuck h]
    rfl
  have hnone : Function.update j.stopped.held .file [] = fun _ => [] := by
    have hup : j.dropped.held .upstream = [] := congrArg Option.toList (using_dropped hj).upstream
    have hpipes : j.dropped.held .pipe = [] := (using_dropped hj).pipes
    rw [held_stopped]
    funext k
    cases k with
    | upstream => simpa using hup
    | pipe => simpa using hpipes
    | _ => rfl
  have hfiles : Function.update j.stopped.held .file (j.files.map (·.1)) = j.stopped.held := by
    rw [← j.stopped_files]
    exact Function.update_eq_self Kind.file j.stopped.held
  have hopen : replay (turns j.stopped.events) =
      some ⟨Function.update j.stopped.held .file (j.files.map (·.1)), _⟩ := hfiles ▸ hreplay
  obtain ⟨hmore, hevents, hheld⟩ := held_shutAll rfl rfl j.files j.stopped hopen
  rw [hend]
  exact ⟨released_of_replay (hheld.trans hnone) (hnone ▸ hevents), hgrown.trans hmore⟩

/-- Where the job waits for ever, it has let go nothing that it had no right to. -/
theorem replay_finish (room : Nat) (hj : j.Accounted past) :
    (∃ h, replay (turns ((finish room : Job.Step τ Unit).final j).events) = some h) ∧
      past <:+ ((finish room : Job.Step τ Unit).final j).events := by
  by_cases hstuck : j.Stuck room
  · have hdropped := using_dropped hj
    obtain ⟨next, hreplay, -⟩ := hdropped.told
    have hpipes : j.dropped.held .pipe = [] := hdropped.pipes
    obtain ⟨before, ⟨rest, hrest⟩, hfinish⟩ := finish_of_stuck hstuck
    have hprocesses : j.dropped.held .process =
        rest.reverse.map (·.number) ++ before.reverse.map (·.number) := by
      have hlist : j.processes = rest.reverse ++ before.reverse := by
        rw [← List.reverse_append, hrest, List.reverse_reverse]
      simp [held, hlist]
    have hleft : replay ((before.reverse.map (·.number)).map (.leaves .process) ++
        turns j.dropped.events) = some
          ⟨Function.update j.dropped.held .process (rest.reverse.map (·.number)), next⟩ :=
      replay_leaves (by simp [Kind.awaited, hpipes]) _ _
        (by rw [← hprocesses, Function.update_eq_self]; exact hreplay)
    have hwaited : (before.map fun p => Event.waited p.number).reverse =
        (before.reverse.map (·.number)).map .waited := by
      simp [Function.comp_def]
    have hturns : turns ((before.map fun p => Event.waited p.number).reverse ++
        j.dropped.events) = (before.reverse.map (·.number)).map (.leaves .process) ++
          turns j.dropped.events := by
      rw [hwaited, turns_map_append fun _ => rfl]
    rw [final_of_error hfinish]
    exact ⟨⟨_, (congrArg replay hturns).trans hleft⟩, hdropped.grown.trans (List.suffix_append _ _)⟩
  · obtain ⟨⟨_, ⟨next, htold⟩, _⟩, hgrown⟩ := released_finish hj hstuck
    exact ⟨⟨_, htold⟩, hgrown⟩

theorem grown_bind {β : Type} (x : Job.Step τ α) {f : α → Job.Step τ β}
    (hf : ∀ a, Accounts (f a)) (hj : (x.final j).Accounted past) :
    ((x >>= f).final j).Accounted (x.final j).events := by
  have hnow : (x.final j).Accounted (x.final j).events := ⟨List.suffix_refl _, hj.told, hj.pipes⟩
  cases h : x j with
  | ok a i =>
    rw [final_bind_of_ok h, final_of_ok h] at *
    exact hf a _ i hnow
  | error g i =>
    rw [final_bind_of_error h, final_of_error h] at *
    exact hnow

/-- What a run holds on its way and when it ends. -/
structure Releases (e : Engine τ) (p : Pipeline) (s : Shell τ) : Prop where
  /-- Before each stage, or where a stage before it has failed, the lists of the job are what the
  events of the run till then tell, and the one pipe in use is the pending one. -/
  before : ∀ before c after, p.stages = before ++ c :: after →
    ((passing e before).final (Job.start s)).Accounted [] ∧
    ((passing e before).final (Job.start s)).events <:+ ((run e p).final (Job.start s)).events
  /-- So it is when the stages are over. -/
  after : ((runStages e p.stages).final (Job.start s)).Accounted [] ∧
    ((runStages e p.stages).final (Job.start s)).events <:+ ((run e p).final (Job.start s)).events
  /-- At every step there is one upstream at most, a pipe in use. -/
  ordered : ∀ past, past <:+ ((run e p).final (Job.start s)).events →
    ∃ h, replay (turns past) = some h ∧ h.Sound
  /-- Nothing is taken hold of twice. So a pipe is offered to one stage at most. -/
  once : ∀ k n, taken k n (turns ((run e p).final (Job.start s)).events) ≤ 1
  /-- The run never ends just when a process of it wrote more than there is room for to a pipe that
  was left unread. -/
  endless : (∃ j, run e p (Job.start s) = .error .endless j) ↔
    ∃ q ∈ ((runStages e p.stages >>= fun _ => emit).final (Job.start s)).processes,
    ∃ u ∈ ((runStages e p.stages >>= fun _ => emit).final (Job.start s)).unread,
      u.1 ∈ q.pipes ∧ e.host.pipeRoom < u.2
  /-- Else nothing is left running or open when it ends, be it with a failure. -/
  released : (∀ j, run e p (Job.start s) ≠ .error .endless j) →
    ((run e p).final (Job.start s)).Released

end Job

end PipelineShell
