import PipelineShell.Proofs.Conduct.Stages
import PipelineShell.Proofs.Holdings.Traces

/-! What a job holds is what its events tell. Between two stages the one pipe in use is the pending
one, and nothing is held when the job ends, however it goes, unless it waits for ever. -/

namespace PipelineShell

def Pending.pipe? : Pending → Option Nat
  | .stream pipe _ => some pipe
  | _ => none

namespace Job

open Attempt Holdings

variable {τ α : Type} {e : Engine τ} {j j' : Job τ} {past : List Event} {up : Option Nat}
  {pipes : List Nat} {limit : Nat}

/-- What the job has on its lists. -/
def held (j : Job τ) : Kind → List Nat
  | .upstream => j.pending.pipe?.toList
  | .pipe => j.pipes
  | .spare => j.unread.map (·.1)
  | .process => j.processes.map (·.number)
  | .helper => j.helpers
  | .file => j.files.map (·.1)

/-- The events tell what the job has on its lists, and new numbers are greater than those told. No
pipe from the limit on has been offered, and none that came after one in use is spare. -/
def Told (limit : Nat) (j : Job τ) : Prop :=
  ∃ next, replay (turns j.events) = some ⟨j.held, next⟩ ∧ (∀ k, next k ≤ j.fresh) ∧
    next .upstream ≤ limit ∧ ∀ n ∈ j.pipes, next .spare ≤ n

/-- The events grow from those that are past and tell what the job has on its lists: these pipes are
in use, and this one is offered. -/
structure Using (past : List Event) (up : Option Nat) (pipes : List Nat) (limit : Nat) (j : Job τ) :
    Prop where
  grown : past <:+ j.events
  told : j.Told limit
  upstream : j.pending.pipe? = up
  pipes : j.pipes = pipes

/-- The events grow from those that are past and tell what the job has on its lists, and the one
pipe in use is the pending one. -/
structure Accounted (past : List Event) (j : Job τ) : Prop where
  grown : past <:+ j.events
  told : j.Told j.fresh
  pipes : j.pipes = j.pending.pipe?.toList

theorem Told.fresh (h : j.Told limit) : j.Told j.fresh := by
  obtain ⟨next, hreplay, hnext, -, hspare⟩ := h
  exact ⟨next, hreplay, hnext, hnext .upstream, hspare⟩

theorem Told.sound (h : j.Told limit) : ∃ next, Holdings.Sound ⟨j.held, next⟩ := by
  obtain ⟨next, hreplay, -⟩ := h
  exact ⟨next, sound_replay hreplay⟩

theorem Told.nodup (h : j.Told limit) (k : Kind) : (j.held k).Nodup := by
  obtain ⟨next, hsound⟩ := h.sound
  exact hsound.nodup k

theorem Told.below (h : j.Told limit) {k : Kind} {n : Nat} (hn : n ∈ j.held k) : n < j.fresh := by
  obtain ⟨next, hreplay, hnext, -⟩ := h
  exact Nat.lt_of_lt_of_le ((sound_replay hreplay).below k n hn) (hnext k)

theorem Accounted.using (h : j.Accounted past) :
    j.Using past j.pending.pipe? j.pending.pipe?.toList j.fresh :=
  ⟨h.grown, h.told, rfl, h.pipes⟩

theorem Using.accounted (h : j.Using past up up.toList limit) : j.Accounted past :=
  ⟨h.grown, h.told.fresh, by rw [h.pipes, h.upstream]⟩

theorem accounted_start (s : Shell τ) : (Job.start s).Accounted [] := by
  have hheld : (Job.start s).held = fun _ => [] := by
    funext k
    cases k <;> rfl
  refine ⟨List.nil_suffix, ⟨fun _ => 0, ?_, fun _ => Nat.le_refl 0, Nat.le_refl 0, nofun⟩, rfl⟩
  rw [hheld]
  rfl

/-! What the lists are after an event is what it tells. -/

theorem Told.take (h : j.Told limit) (event : Event) {k : Kind}
    (hevent : event.turns = [.takes k j.fresh]) (hup : k ≠ .upstream) (hspare : k ≠ .spare)
    (hevents : j'.events = event :: j.events)
    (hheld : j'.held = Function.update j.held k (j.fresh :: j.held k))
    (hfresh : j'.fresh = j.fresh + 1) : j'.Told limit := by
  obtain ⟨next, hreplay, hnext, hlimit, hlater⟩ := h
  refine ⟨Function.update next k (j.fresh + 1), ?_, fun k' => ?_, ?_, fun n hn => ?_⟩
  · rw [hevents, turns_cons, hevent, hheld]
    exact replay_cons_iff.mpr
      ⟨_, hreplay, after_takes_iff.mpr ⟨hnext k, fun hk => absurd hk hup, rfl⟩⟩
  · rw [hfresh, Function.update_apply]
    split
    · exact Nat.le_refl _
    · exact Nat.le_succ_of_le (hnext k')
  · rw [Function.update_of_ne (Ne.symm hup)]
    exact hlimit
  · rw [Function.update_of_ne (Ne.symm hspare)]
    have hmem : n ∈ j'.held .pipe := hn
    rw [hheld, Function.update_apply] at hmem
    split at hmem
    · next hk =>
      subst hk
      rcases List.mem_cons.mp hmem with rfl | hmem
      · exact hnext .spare
      · exact hlater n hmem
    · exact hlater n hmem

theorem Told.leave (h : j.Told limit) (event : Event) {k : Kind} {n : Nat}
    (hevent : event.turns = [.leaves k n]) (hn : n ∈ j.held k)
    (hearly : ∀ k' ∈ k.awaited, j.held k' = []) (hevents : j'.events = event :: j.events)
    (hheld : j'.held = Function.update j.held k ((j.held k).erase n))
    (hfresh : j'.fresh = j.fresh) : j'.Told limit := by
  obtain ⟨next, hreplay, hnext, hlimit, hlater⟩ := h
  refine ⟨next, ?_, fun k' => hfresh ▸ hnext k', hlimit, fun m hm => hlater m ?_⟩
  · rw [hevents, turns_cons, hevent, hheld]
    exact replay_cons_iff.mpr ⟨_, hreplay, after_leaves_iff.mpr ⟨hn, hearly, rfl⟩⟩
  · have hmem : m ∈ j'.held .pipe := hm
    rw [hheld, Function.update_apply] at hmem
    split at hmem
    · next hk =>
      subst hk
      exact List.mem_of_mem_erase hmem
    · exact hmem

/-! Steps that take hold of nothing and let nothing go. -/

structure Unmoved (j j' : Job τ) : Prop where
  held : j'.held = j.held
  events : j'.events = j.events
  fresh : j'.fresh = j.fresh
  upstream : j'.pending.pipe? = j.pending.pipe?

instance : IsPreorder (Job τ) Unmoved where
  refl _ := ⟨rfl, rfl, rfl, rfl⟩
  trans _ _ _ h h' := ⟨h'.held.trans h.held, h'.events.trans h.events, h'.fresh.trans h.fresh,
    h'.upstream.trans h.upstream⟩

theorem Unmoved.using (h : Unmoved j j') (hj : j.Using past up pipes limit) :
    j'.Using past up pipes limit := by
  have hpipes : j'.pipes = j.pipes := congrFun h.held .pipe
  refine ⟨h.events ▸ hj.grown, ?_, h.upstream.trans hj.upstream, hpipes.trans hj.pipes⟩
  unfold Told
  rw [h.held, h.events, h.fresh, hpipes]
  exact hj.told

theorem Unmoved.accounted (h : Unmoved j j') (hj : j.Accounted past) : j'.Accounted past := by
  have hj' := h.using hj.using
  exact ⟨hj'.grown, hj'.told.fresh, by rw [hj'.pipes, h.upstream]⟩

theorem unmoved_of_shell (s : Shell τ) : Unmoved j { j with shell := s } := by
  refine ⟨?_, rfl, rfl, rfl⟩
  funext k
  cases k <;> rfl

theorem unmoved_inShell (step : Shell.Step τ α) : Keeps Unmoved (inShell step) := by
  intro j
  unfold final inShell within
  cases step j.shell <;> exact unmoved_of_shell _

theorem unmoved_setFile (j : Job τ) (n : Nat) (w : BlockWriter) (t : FileTree) :
    Unmoved j (j.setFile n w t) := by
  have hnumber : ∀ f ∈ j.files, (if f.1 = n then (n, w) else f).1 = f.1 := by
    intro f _
    split <;> simp_all
  refine ⟨?_, rfl, rfl, rfl⟩
  funext k
  cases k with
  | file => simpa [held, Job.setFile] using hnumber
  | _ => rfl

theorem unmoved_onFile (n : Nat) (step : BlockWriter.Writing Unit) :
    Keeps Unmoved (onFile n step : Job.Step τ Unit) := by
  intro j
  cases hf : j.file? n with
  | none =>
    simp only [final, onFile, hf]
    exact refl_of Unmoved j
  | some w =>
    rw [final_onFile hf]
    exact unmoved_setFile j n _ _

theorem unmoved_putAll (n : Nat) (pieces : List ByteArray) :
    Keeps Unmoved (putAll n pieces : Job.Step τ (Option Nat)) := by
  induction pieces with
  | nil => exact keeps_pure _
  | cons piece pieces ih =>
    refine (keeps_outcome (unmoved_onFile n _)).bind fun result => ?_
    cases result with
    | ok _ => exact ih
    | error _ => exact keeps_pure _

theorem unmoved_writeOutput (out err : Option Nat) (output : Output) :
    Keeps Unmoved (writeOutput out err output : Job.Step τ Unit) := by
  induction output with
  | nil => exact keeps_pure _
  | cons p output ih =>
    obtain ⟨_ | _, bytes⟩ := p <;> cases out <;> cases err <;>
      first | exact (keeps_discard (unmoved_putAll _ _)).bind fun _ => ih | exact ih

theorem unmoved_setPending {p : Pending} (hj : j.pending.pipe? = none) (hp : p.pipe? = none) :
    Unmoved j { j with pending := p } := by
  refine ⟨?_, rfl, rfl, hp.trans hj.symm⟩
  funext k
  cases k with
  | upstream => exact congrArg Option.toList (hp.trans hj.symm)
  | _ => rfl

theorem unmoved_keepGoing (goesOn : Bool) : Unmoved j { j with keepGoing := goesOn } := by
  refine ⟨?_, rfl, rfl, rfl⟩
  funext k
  cases k <;> rfl

theorem using_setPending {p : Pending} (hp : p.pipe? = none) :
    Leads (Using past none pipes limit) (Using past none pipes limit)
      (setPending p : Job.Step τ Unit) :=
  leads_modify fun _ hj => (unmoved_setPending hj.upstream hp).using hj

/-! Steps that change nothing in what the job waits for. -/

/-- The processes are as before, and so are the pipes that are left unread. -/
structure SameWaits (j j' : Job τ) : Prop where
  processes : j'.processes = j.processes
  unread : j'.unread = j.unread

instance : IsPreorder (Job τ) SameWaits where
  refl _ := ⟨rfl, rfl⟩
  trans _ _ _ h h' := ⟨h'.processes.trans h.processes, h'.unread.trans h.unread⟩

theorem waits_onFile (n : Nat) (step : BlockWriter.Writing Unit) :
    Keeps SameWaits (onFile n step : Job.Step τ Unit) := by
  intro j
  cases hf : j.file? n with
  | none =>
    simp only [final, onFile, hf]
    exact refl_of SameWaits j
  | some w =>
    rw [final_onFile hf]
    exact ⟨rfl, rfl⟩

theorem waits_putAll (n : Nat) (pieces : List ByteArray) :
    Keeps SameWaits (putAll n pieces : Job.Step τ (Option Nat)) := by
  induction pieces with
  | nil => exact keeps_pure _
  | cons piece pieces ih =>
    refine (keeps_outcome (waits_onFile n _)).bind fun result => ?_
    cases result with
    | ok _ => exact ih
    | error _ => exact keeps_pure _

theorem waits_writeOutput (out err : Option Nat) (output : Output) :
    Keeps SameWaits (writeOutput out err output : Job.Step τ Unit) := by
  induction output with
  | nil => exact keeps_pure _
  | cons p output ih =>
    obtain ⟨_ | _, bytes⟩ := p <;> cases out <;> cases err <;>
      first | exact (keeps_discard (waits_putAll _ _)).bind fun _ => ih | exact ih

theorem waits_serve (pipe : Option Nat) : Keeps SameWaits (serve pipe : Job.Step τ Unit) := by
  cases pipe <;> exact fun _ => ⟨rfl, rfl⟩

theorem waits_feed (input : Option Nat) (amount : Nat) :
    Keeps SameWaits (feed input amount : Job.Step τ Unit) := by
  refine keeps_get fun j => ?_
  cases j.pending with
  | nothing => exact (Keeps.bind (keeps_modify fun _ => ⟨rfl, rfl⟩) fun _ => waits_serve input) j
  | text s => exact (Keeps.bind (keeps_modify fun _ => ⟨rfl, rfl⟩) fun _ => waits_serve input) j
  | stream pipe pieces =>
    have hclaim : Keeps SameWaits (claim pipe .relay : Job.Step τ Unit) := fun _ => ⟨rfl, rfl⟩
    exact (hclaim.bind fun _ => (waits_serve input).bind fun _ _ => ⟨rfl, rfl⟩) j

theorem waits_receive (s : Stream) (pipe : Option Nat) (pieces : List ByteArray) :
    Keeps SameWaits (receive s pipe pieces : Job.Step τ Unit) :=
  Keeps.bind (keeps_modify fun _ => ⟨rfl, rfl⟩) fun _ => waits_serve pipe

theorem waits_handOn (last : Bool) (out pipe : Option Nat) (pieces : List ByteArray) :
    Keeps SameWaits (handOn last out pipe pieces : Job.Step τ Unit) := by
  have hset : ∀ p, Keeps SameWaits (setPending p : Job.Step τ Unit) := fun p _ => ⟨rfl, rfl⟩
  cases last with
  | true =>
    cases out with
    | none => exact (waits_receive _ _ _).bind fun _ => hset _
    | some n => exact hset _
  | false =>
    cases pipe with
    | none => exact hset _
    | some n => exact fun _ => ⟨rfl, rfl⟩

/-! What each step takes hold of, and what it lets go. -/

theorem using_startHelper : Leads (Using past up pipes limit) (Using past up pipes limit)
    (startHelper : Job.Step τ Unit) := by
  intro j hj
  refine ⟨hj.grown.trans (List.suffix_cons _ _), hj.told.take (.started j.fresh) rfl
    (by decide) (by decide) rfl ?_ rfl, hj.upstream, hj.pipes⟩
  funext k
  cases k <;> rfl

theorem using_claim (pipe : Nat) (c : Consumer) :
    Leads (Using past (some pipe) pipes limit) (Using past none pipes limit)
      (claim pipe c : Job.Step τ Unit) := by
  intro j hj
  have hup : j.held .upstream = [pipe] := congrArg Option.toList hj.upstream
  refine ⟨hj.grown.trans (List.suffix_cons _ _), hj.told.leave (.claimed pipe c) rfl
    (by simp [hup]) nofun rfl ?_ rfl, rfl, hj.pipes⟩
  rw [hup]
  funext k
  cases k <;> simp [held, final, claim, note, setPending, bind_apply, modify_apply, Pending.pipe?]

theorem filter_ne_eq {a b : List Nat} {n : Nat} (h : (a ++ n :: b).Nodup) :
    (a ++ n :: b).filter (· ≠ n) = a ++ b := by
  obtain ⟨-, hb, hdisjoint⟩ := List.nodup_append.mp h
  have ha : ∀ m ∈ a, decide (m ≠ n) = true :=
    fun m hm => decide_eq_true (hdisjoint m hm n (List.mem_cons_self ..))
  have hb' : ∀ m ∈ b, decide (m ≠ n) = true :=
    fun m hm => decide_eq_true fun hmn => (List.nodup_cons.mp hb).1 (hmn ▸ hm)
  rw [List.filter_append, List.filter_cons_of_neg (by simp), List.filter_eq_self.mpr ha,
    List.filter_eq_self.mpr hb']

theorem using_closePipe (a : List Nat) (pipe : Nat) (b : List Nat) :
    Leads (Using past none (a ++ pipe :: b) limit) (Using past none (a ++ b) limit)
      (closePipe pipe : Job.Step τ Unit) := by
  intro j hj
  have hpipe : j.held .pipe = a ++ pipe :: b := hj.pipes
  have hnodup := hpipe ▸ hj.told.nodup .pipe
  have hfilter : j.pipes.filter (· ≠ pipe) = a ++ b := by rw [hj.pipes, filter_ne_eq hnodup]
  have herase : (j.held .pipe).erase pipe = j.pipes.filter (· ≠ pipe) := by
    rw [(hj.told.nodup .pipe).erase_eq_filter]
    exact List.filter_congr fun m _ => by by_cases h : m = pipe <;> simp [h]
  have hnone : j.held .upstream = [] := congrArg Option.toList hj.upstream
  refine ⟨hj.grown.trans (List.suffix_cons _ _), hj.told.leave (.closed pipe) rfl
    (by simp [hpipe]) (by simp [Kind.awaited, hnone]) rfl ?_ rfl, hj.upstream, hfilter⟩
  rw [herase]
  funext k
  cases k <;> rfl

theorem using_serve (a : List Nat) (pipe : Option Nat) (b : List Nat) :
    Leads (Using past none (a ++ (pipe.toList ++ b)) limit) (Using past none (a ++ b) limit)
      (serve pipe : Job.Step τ Unit) := by
  cases pipe with
  | none => exact leads_pure () fun _ hj => hj
  | some pipe =>
    exact using_startHelper.bind_of_never noted_startHelper.quiet.never fun _ =>
      using_closePipe a pipe b

theorem using_forsake (left pipe : Nat) :
    Leads (Using past none [pipe] limit) (Using past none [] limit)
      (forsake left pipe : Job.Step τ Unit) := by
  intro j hj
  have hpipes : j.held .pipe = [pipe] := hj.pipes
  have hnone : j.held .upstream = [] := congrArg Option.toList hj.upstream
  obtain ⟨next, hreplay, hnext, hlimit, hlater⟩ := hj.told
  have hpipe : pipe < j.fresh := hj.told.below (hpipes ▸ List.mem_singleton_self pipe)
  have hempty : j.pipes.filter (· ≠ pipe) = [] := by simp [hj.pipes]
  refine ⟨hj.grown.trans (List.suffix_cons _ _),
    ⟨Function.update next .spare (pipe + 1), ?_, fun k => ?_, hlimit, ?_⟩, hj.upstream, hempty⟩
  · have hheld : ((forsake left pipe : Job.Step τ Unit).final j).held =
        Function.update (Function.update j.held .pipe []) .spare (pipe :: j.held .spare) := by
      funext k
      cases k with
      | pipe => exact hempty
      | _ => rfl
    rw [hheld]
    refine replay_cons_iff.mpr ⟨_, replay_cons_iff.mpr ⟨_, hreplay, after_leaves_iff.mpr
      ⟨?_, ?_, rfl⟩⟩, after_takes_iff.mpr ⟨hlater pipe (by simp [hj.pipes]), nofun, ?_⟩⟩
    · simp [hpipes]
    · simp [Kind.awaited, hnone]
    · simp [hpipes]
  · rw [Function.update_apply]
    split
    · exact hpipe
    · exact hnext k
  · intro n hn
    have hmem : n ∈ j.pipes.filter (· ≠ pipe) := hn
    rw [hempty] at hmem
    cases hmem

theorem accounted_offer {pipe : Nat} (pieces : List ByteArray) (hlimit : limit ≤ pipe) :
    Leads (Using past none [pipe] limit) (Accounted past) (offer pipe pieces : Job.Step τ Unit) := by
  intro j hj
  have hpipes : j.held .pipe = [pipe] := hj.pipes
  have hnone : j.held .upstream = [] := congrArg Option.toList hj.upstream
  have hpipe : pipe < j.fresh := hj.told.below (hpipes ▸ List.mem_singleton_self pipe)
  obtain ⟨next, hreplay, hnext, hup, hlater⟩ := hj.told
  refine ⟨hj.grown.trans (List.suffix_cons _ _),
    ⟨Function.update next .upstream (pipe + 1), ?_, fun k => ?_, ?_, hlater⟩, hj.pipes⟩
  · have hheld : ((offer pipe pieces : Job.Step τ Unit).final j).held =
        Function.update j.held .upstream (pipe :: j.held .upstream) := by
      rw [hnone]
      funext k
      cases k <;> rfl
    rw [hheld]
    exact replay_cons_iff.mpr ⟨_, hreplay, after_takes_iff.mpr
      ⟨Nat.le_trans hup hlimit, fun _ => ⟨hnone, by simp [hpipes]⟩, rfl⟩⟩
  · rw [Function.update_apply]
    split
    · exact hpipe
    · exact hnext k
  · rw [Function.update_self]
    exact hpipe

theorem using_openPipe (hj : j.Using past up pipes limit) : ∃ j',
    openPipe j = .ok j.fresh j' ∧ j'.Using past up (j.fresh :: pipes) limit ∧ SameWaits j j' ∧
      j.fresh ≤ j'.fresh := by
  refine ⟨_, rfl, ⟨hj.grown.trans (List.suffix_cons _ _), hj.told.take (.piped j.fresh) rfl
    (by decide) (by decide) rfl ?_ rfl, hj.upstream, congrArg (j.fresh :: ·) hj.pipes⟩,
    ⟨rfl, rfl⟩, Nat.le_succ _⟩
  funext k
  cases k <;> rfl

theorem using_openPipeIf (needed : Bool) (hj : j.Using past up pipes limit) : ∃ pipe j',
    openPipeIf needed j = .ok pipe j' ∧ j'.Using past up (pipe.toList ++ pipes) limit ∧
      SameWaits j j' ∧ j.fresh ≤ j'.fresh ∧ (∀ n ∈ pipe, j.fresh ≤ n) ∧ pipe.isSome = needed := by
  cases needed with
  | false => exact ⟨none, j, rfl, hj, refl_of SameWaits j, Nat.le_refl _, nofun, rfl⟩
  | true =>
    obtain ⟨j', hopen, hj', hwaits, hfresh⟩ := using_openPipe hj
    refine ⟨some j.fresh, j', Attempt.bind_of_ok hopen _, hj', hwaits, hfresh, ?_, rfl⟩
    rintro _ ⟨⟩
    exact Nat.le_refl _

def Ends.all (ends : Ends) : List Nat :=
  ends.input.toList ++ ends.output.toList ++ ends.errors.toList

/-- A process has started, and its pipes are new. -/
structure Started (ends : Ends) (j j' : Job τ) : Prop where
  processes : ∃ n, j'.processes = ⟨n, ends.all⟩ :: j.processes
  unread : j'.unread = j.unread
  new : ∀ n ∈ ends.all, j.fresh ≤ n

theorem using_spawn (last : Bool) (out err : Option Nat) (hj : j.Using past up pipes limit) :
    ∃ ends j', spawn last out err j = .ok ends j' ∧
      j'.Using past up (ends.errors.toList ++ (ends.output.toList ++ (ends.input.toList ++ pipes)))
        limit ∧ Started ends j j' ∧
      ends.output.isSome =
        (out.isNone && !j.shell.inherits (j.shell.wiring.stageOutput last)) ∧
      ends.errors.isSome = (err.isNone && !j.shell.inherits j.shell.wiring.stderr) := by
  obtain ⟨input, j₁, hinput, hj₁, hwaits₁, hfresh₁, hnew₁, -⟩ := using_openPipeIf j.feeds hj
  obtain ⟨output, j₂, houtput, hj₂, hwaits₂, hfresh₂, hnew₂, hout⟩ := using_openPipeIf
    (out.isNone && !j.shell.inherits (j.shell.wiring.stageOutput last)) hj₁
  obtain ⟨errors, j₃, herrors, hj₃, hwaits₃, -, hnew₃, herr⟩ := using_openPipeIf
    (err.isNone && !j.shell.inherits j.shell.wiring.stderr) hj₂
  have hwaits : SameWaits j j₃ := trans_of SameWaits (trans_of SameWaits hwaits₁ hwaits₂) hwaits₃
  refine ⟨⟨input, output, errors⟩,
    j₃.launched (input.toList ++ output.toList ++ errors.toList), ?_, ⟨?_, ?_, hj₃.upstream,
    hj₃.pipes⟩, ⟨⟨j₃.fresh, ?_⟩, hwaits.unread, fun n hn => ?_⟩, hout, herr⟩
  · rw [spawn_apply, bind_of_ok hinput, bind_of_ok houtput]
    exact bind_of_ok herrors _
  · exact hj₃.grown.trans (List.suffix_cons _ _)
  · refine hj₃.told.take (.spawned j₃.fresh) rfl (by decide) (by decide) rfl ?_ rfl
    funext k
    cases k <;> rfl
  · exact congrArg (List.cons _) hwaits.processes
  · simp only [Ends.all, List.mem_append, Option.mem_toList] at hn
    rcases hn with (hn | hn) | hn
    · exact hnew₁ n hn
    · exact Nat.le_trans hfresh₁ (hnew₂ n hn)
    · exact Nat.le_trans (Nat.le_trans hfresh₁ hfresh₂) (hnew₃ n hn)

theorem using_feed (input : Option Nat) (amount : Nat) (a : List Nat)
    (hj : j.Using past up (a ++ (input.toList ++ up.toList)) limit) :
    ((feed input amount).final j).Using past none a limit := by
  have hup := hj.upstream
  have hserve : Leads (Using past none (a ++ (input.toList ++ [])) limit)
      (Using past none (a ++ []) limit) (serve input : Job.Step τ Unit) := using_serve a input []
  rw [List.append_nil a] at hserve
  unfold feed
  rw [final_bind_of_ok (get_apply _)]
  cases hp : j.pending with
  | nothing =>
    rw [hp] at hup
    subst hup
    exact hserve _ ((unmoved_of_shell _).using hj)
  | text s =>
    rw [hp] at hup
    subst hup
    exact ((using_setPending rfl).bind_of_never (quiet_setPending _).never fun _ => hserve) j hj
  | stream pipe pieces =>
    rw [hp] at hup
    subst hup
    have hclose : Leads (Using past none (a ++ [pipe]) limit) (Using past none (a ++ []) limit)
        (closePipe pipe : Job.Step τ Unit) := using_closePipe a pipe []
    rw [List.append_nil a] at hclose
    exact ((using_claim pipe .relay).bind_of_never (quiet_claim _ _).never fun _ =>
      (using_serve a input [pipe]).bind_of_never (noted_serve input).quiet.never
        fun _ => hclose) j hj

theorem using_receive (s : Stream) (pipe : Option Nat) (b : List Nat) (pieces : List ByteArray) :
    Leads (Using past none (pipe.toList ++ b) limit) (Using past none b limit)
      (receive s pipe pieces : Job.Step τ Unit) :=
  Leads.bind_of_never (leads_modify fun _ hj => (unmoved_of_shell _).using hj) (throws_modify _)
    fun _ => using_serve [] pipe b

/-- Of the pipes of a process the one of its output is offered to the next stage. -/
theorem accounted_handOn (last : Bool) (out pipe : Option Nat) (pieces : List ByteArray)
    (hnew : ∀ n ∈ pipe, limit ≤ n) (hout : out.isSome = true → pipe = none) :
    Leads (Using past none pipe.toList limit) (Accounted past)
      (handOn last out pipe pieces : Job.Step τ Unit) := by
  have hset : ∀ p : Pending, p.pipe? = none →
      Leads (Using past none [] limit) (Accounted past) (setPending p : Job.Step τ Unit) :=
    fun p hp j hj => (using_setPending hp j hj).accounted
  cases last with
  | true =>
    cases out with
    | none =>
      have hreceive : Leads (Using past none (pipe.toList ++ []) limit) (Using past none [] limit)
          (receive .stdout pipe pieces : Job.Step τ Unit) := using_receive .stdout pipe [] pieces
      rw [List.append_nil] at hreceive
      exact hreceive.bind_of_never (quiet_receive _ _ _).never fun _ => hset _ rfl
    | some n =>
      cases hout rfl
      exact hset _ rfl
  | false =>
    cases pipe with
    | none => exact hset _ rfl
    | some n => exact accounted_offer pieces (hnew n rfl)

theorem accounted_attend (last : Bool) (out err : Option Nat) (amount : Nat) (output : Output)
    (hj : j.Accounted past) : ((attend last out err amount output).final j).Accounted past := by
  obtain ⟨ends, j₁, hspawn, hj₁, hstarted, hout, herr⟩ := using_spawn last out err hj.using
  rw [← List.append_assoc] at hj₁
  have hnew : ∀ n ∈ ends.output, j.fresh ≤ n := fun n hn =>
    hstarted.new n (by simp [Ends.all, Option.mem_toList.mpr hn])
  have hfed := using_feed ends.input amount _ hj₁
  have hlast : Leads (Using past none ends.output.toList j.fresh) (Accounted past)
      (handOn last out ends.output (output.pieces .stdout) : Job.Step τ Unit) :=
    accounted_handOn last out ends.output _ hnew fun h => by cases out <;> simp_all
  have hrest : Leads (Using past none (ends.errors.toList ++ ends.output.toList) j.fresh)
      (Accounted past) (do
        writeOutput out err output
        if err.isNone then receive .stderr ends.errors (output.pieces .stderr)
        handOn last out ends.output (output.pieces .stdout) : Job.Step τ Unit) := by
    refine Leads.bind_of_never ((unmoved_writeOutput out err output).leads
      fun _ _ => Unmoved.using) (quiet_writeOutput out err output).never fun _ => ?_
    cases err with
    | none =>
      exact (using_receive .stderr ends.errors _ _).bind_of_never (quiet_receive _ _ _).never
        fun _ => hlast
    | some n =>
      rw [Option.isSome_eq_false_iff.mp herr |> Option.isNone_iff_eq_none.mp]
      exact hlast
  rw [attend, final_bind_of_ok hspawn]
  have hfeed : Leads (· = j₁) (Using past none (ends.errors.toList ++ ends.output.toList) j.fresh)
      (feed ends.input amount : Job.Step τ Unit) := by
    rintro _ rfl
    exact hfed
  exact (hfeed.bind_of_never (quiet_feed _ _).never fun _ => hrest) j₁ rfl

/-- However the step ends, the events tell what the job holds if they did so before. -/
def Accounts (x : Job.Step τ α) : Prop :=
  ∀ past, Leads (Accounted past) (Accounted past) x

theorem Accounts.bind {β : Type} {x : Job.Step τ α} {f : α → Job.Step τ β} (hx : Accounts x)
    (hf : ∀ a, Accounts (f a)) : Accounts (x >>= f) :=
  fun past => (hx past).bind (fun a => hf a past) fun _ => id

theorem accounts_pure (a : α) : Accounts (pure a : Job.Step τ α) :=
  fun _ => leads_pure a fun _ => id

theorem accounts_throw (f : Failure) : Accounts (throw f : Job.Step τ α) :=
  fun _ _ => id

theorem accounts_get {f : Job τ → Job.Step τ α}
    (h : ∀ past j, j.Accounted past → ((f j).final j).Accounted past) : Accounts (get >>= f) :=
  fun past => leads_get (h past)

theorem accounts_openDestination (d : Destination) :
    Accounts (openDestination d : Job.Step τ (Option Nat)) := by
  intro past j hj
  unfold final
  rw [openDestination_apply]
  cases Shell.openHeld d j.shell with
  | error f s => exact (unmoved_of_shell s).accounted hj
  | ok w s =>
    cases w with
    | none => exact (unmoved_of_shell s).accounted hj
    | some w =>
      refine ⟨hj.grown.trans (List.suffix_cons _ _), ?_, hj.pipes⟩
      refine Told.fresh (hj.told.take (.opened j.fresh) rfl (by decide) (by decide) rfl ?_ rfl)
      funext k
      cases k <;> rfl

theorem using_drain : Leads (Accounted past) (fun j => j.Using past none [] j.fresh)
    (drain : Job.Step τ (Option String)) := by
  refine leads_get fun j hj => ?_
  have hj' := hj.using
  cases hp : j.pending with
  | nothing =>
    rw [hp] at hj'
    exact hj'
  | text s =>
    rw [hp] at hj'
    exact hj'
  | stream pipe pieces =>
    rw [hp] at hj'
    have hclosed : Leads (Using past (some pipe) [pipe] j.fresh) (Using past none [] j.fresh) (do
        claim pipe .drain
        closePipe pipe : Job.Step τ Unit) :=
      (using_claim pipe .drain).bind_of_never (quiet_claim _ _).never
        fun _ => using_closePipe [] pipe []
    exact hclosed j hj'

theorem accounts_runBuiltin (tag : τ) (c : Command) (last : Bool) :
    Accounts (runBuiltin e tag c last) := by
  intro past
  have hkept : ∀ {i i' : Job τ}, Unmoved i i' → i.Using past none [] i.fresh →
      i'.Using past none [] i'.fresh := by
    intro i i' h hi
    rw [h.fresh]
    exact h.using hi
  refine using_drain.bind (fun given => ?_) fun _ hj => Using.accounted hj
  refine Leads.bind (leads_modify fun _ hj => hkept (unmoved_of_shell _) hj)
    (fun _ => Leads.bind (Keeps.leads (unmoved_inShell _) fun _ _ => hkept) (fun goesOn => ?_)
      fun _ hj => Using.accounted hj) fun _ hj => Using.accounted hj
  refine leads_modify fun i hi => ?_
  have hset : Unmoved i { i with pending := if last then .nothing else .text i.shell.captured } :=
    unmoved_setPending hi.upstream (by cases last <;> rfl)
  exact Using.accounted (hkept (trans_of Unmoved hset (unmoved_keepGoing _)) hi)

theorem using_relayToFile (n pipe : Nat) (pieces : List ByteArray) :
    Leads (Using past none [pipe] limit) (Using past none [] limit)
      (relayToFile e n pipe pieces) := by
  refine Leads.bind_of_never ((unmoved_putAll n _).leads fun _ _ => Unmoved.using)
    (quiet_putAll n _).never fun left => ?_
  cases left with
  | none => exact using_closePipe [] pipe []
  | some left => exact using_forsake left pipe

theorem using_pour (n : Nat) (hj : j.Accounted past) :
    ((pour e n j.pending).final j).Using past none [] j.fresh := by
  have hj' := hj.using
  cases hp : j.pending with
  | nothing =>
    rw [hp] at hj'
    exact hj'
  | text s =>
    rw [hp] at hj'
    exact (unmoved_onFile n _ j).using hj'
  | stream pipe pieces =>
    rw [hp] at hj'
    exact ((using_claim pipe .relay).bind_of_never (quiet_claim _ _).never fun _ =>
      using_startHelper.bind_of_never noted_startHelper.quiet.never fun _ =>
      using_relayToFile n pipe pieces) j hj'

theorem accounts_runEmpty (r : Redirection) : Accounts (runEmpty e r) := by
  rw [runEmpty_eq]
  refine (accounts_openDestination _).bind fun _ => (accounts_openDestination _).bind fun out => ?_
  cases out with
  | none => exact accounts_pure _
  | some n =>
    refine accounts_get fun past j hj => ?_
    have hpour : Leads (· = j) (Using past none [] j.fresh) (pour e n j.pending) := by
      rintro _ rfl
      exact using_pour n hj
    exact (hpour.bind (fun _ => using_setPending rfl) fun _ => id) j rfl |>.accounted

theorem accounts_runProcess (c : Command) (last : Bool) : Accounts (runProcess e c last) := by
  rw [runProcess_eq]
  refine accounts_get fun past j hj => ?_
  cases j.shell.locate c.name with
  | none => exact hj
  | some path =>
    refine ((accounts_openDestination _).bind fun out => (accounts_openDestination _).bind
      fun err => ?_) past j hj
    unfold launch
    cases (c.name :: c.args).all FileTree.isPath with
    | false => exact accounts_throw _
    | true =>
      refine accounts_get fun past i hi => ?_
      dsimp only
      split
      · exact hi
      · exact accounted_attend last out err _ _ hi

/-- However a stage ends, its job holds what the events tell, and the one pipe in use after it is
pending. -/
theorem accounts_runStage (c : Command) (last : Bool) : Accounts (runStage e c last) := by
  unfold runStage
  split
  · exact accounts_runEmpty _
  · refine accounts_get fun past j hj => ?_
    dsimp only
    split
    · split
      · exact accounts_runBuiltin _ c last past j hj
      · exact hj
    · exact accounts_runProcess c last past j hj

theorem accounts_passing (cs : List Command) : Accounts (passing e cs) := by
  induction cs with
  | nil => exact accounts_pure _
  | cons c cs ih => exact (accounts_runStage c false).bind fun _ => ih

theorem accounts_runStages (cs : List Command) : Accounts (runStages e cs) := by
  induction cs with
  | nil => exact accounts_pure _
  | cons c cs ih => exact (accounts_runStage c _).bind fun _ => ih

theorem accounts_emit : Accounts (emit : Job.Step τ Unit) := by
  rw [emit_eq]
  refine accounts_get fun past j hj => ?_
  have hj' := hj.using
  generalize j.shell.wiring.stdout = o
  cases hp : j.pending with
  | nothing => exact hj
  | text s =>
    rw [hp] at hj'
    exact ((Leads.bind (Keeps.leads (unmoved_inShell _) fun _ _ => Unmoved.using)
      (fun _ => using_setPending rfl) fun _ => id) j hj').accounted
  | stream pipe pieces =>
    rw [hp] at hj'
    exact (((using_claim pipe .pump).bind_of_never (quiet_claim _ _).never fun _ =>
      using_startHelper.bind_of_never noted_startHelper.quiet.never fun _ =>
      Leads.bind_of_never ((keeps_discard (keeps_outcome (unmoved_inShell _))).leads
        fun _ _ => Unmoved.using) (throws_outcome _).discard
        fun _ => using_closePipe [] pipe []) j hj').accounted

/-- A job that waits for ever has a process that wrote more than there is room for to a pipe that
was left unread. -/
theorem Accounted.stuck_iff {room : Nat} (hj : j.Accounted past) : j.Stuck room ↔
    ∃ p ∈ j.processes, ∃ u ∈ j.unread, u.1 ∈ p.pipes ∧ room < u.2 := by
  have hnone : j.dropped.pipes = [] := by
    have hpipes := hj.pipes
    unfold dropped
    cases hp : j.pending with
    | stream pipe pieces =>
      rw [hp] at hpipes
      simp [hpipes, Pending.pipe?]
    | _ =>
      rw [hp] at hpipes
      exact hpipes
  have hblocks : ∀ p, j.dropped.blocks room p = true ↔
      ∃ u ∈ j.unread, u.1 ∈ p.pipes ∧ room < u.2 := by
    intro p
    simp only [blocks, hnone, dropped_unread, List.any_eq_true]
    grind
  simp only [Stuck, hblocks]

/-- Where nothing is left unread, every process ends. -/
theorem Accounted.not_stuck {room : Nat} (hj : j.Accounted past) (hunread : j.unread = []) :
    ¬j.Stuck room := by
  rw [hj.stuck_iff, hunread]
  rintro ⟨_, _, _, hu, _⟩
  cases hu

theorem stuck_attend_iff {room : Nat} (last : Bool) (out err : Option Nat) (amount : Nat)
    (output : Output) (hj : j.Accounted past) :
    ((attend last out err amount output).final j).Stuck room ↔ j.Stuck room := by
  obtain ⟨ends, j₁, hspawn, -, hstarted, -, -⟩ := using_spawn last out err hj.using
  obtain ⟨n, hprocesses⟩ := hstarted.processes
  have hwaits : SameWaits j₁ ((attend last out err amount output).final j) := by
    rw [attend, final_bind_of_ok hspawn]
    refine ((waits_feed ends.input amount).bind fun _ =>
      (waits_writeOutput out err output).bind fun _ => ?_) j₁
    cases err with
    | none => exact (waits_receive _ _ _).bind fun _ => waits_handOn _ _ _ _
    | some n => exact waits_handOn _ _ _ _
  have hnew : ∀ u ∈ j.unread, u.1 ∉ ends.all := fun u hu hmem =>
    Nat.not_lt.mpr (hstarted.new _ hmem)
      (hj.told.below (k := .spare) (List.mem_map_of_mem hu))
  rw [(accounted_attend last out err amount output hj).stuck_iff, hj.stuck_iff, hwaits.processes,
    hwaits.unread, hprocesses, hstarted.unread]
  grind

end Job

end PipelineShell
