import PipelineShell.Line
import PipelineShell.Proofs.Conduct.Builtins
import PipelineShell.Proofs.Jobs

/-! What every step leaves in order, however it ends: the wiring, the table of builtins and the
numbers of the open files. The input is left alone, or all of it is read, unless it is a file: then
a part of it may be read. No device is made. -/

namespace PipelineShell

namespace Text

@[simp] theorem past_zero (s : String) : past 0 s = s := by
  simp [past]

@[simp] theorem past_length (s : String) : past s.length s = "" := by
  simp [past, ← String.length_toList]

theorem length_past_le (n : Nat) (s : String) : (past n s).length ≤ s.length := by
  simp [past, ← String.length_toList]

theorem first_append_past (n : Nat) (s : String) : first n s ++ past n s = s := by
  simp [first, past, ← String.ofList_append]

@[simp] theorem past_past (n m : Nat) (s : String) : past m (past n s) = past (n + m) s := by
  simp [past]

end Text

namespace Shell

variable {τ α : Type} {s t : Shell τ}

/-- Of the input is left what was there or nothing, and of a file that it comes from an end. -/
structure Leaves (s t : Shell τ) : Prop where
  input : t.input = s.input ∨ t.input = ""
  behind : ∃ n, t.behind = s.behind.map (Text.past n)

namespace Leaves

theorem same (hi : t.input = s.input) (hb : t.behind = s.behind) : Leaves s t :=
  ⟨.inl hi, 0, by rw [hb]; cases s.behind <;> simp⟩

theorem all (hi : t.input = "") (hb : t.behind = s.behind.map fun _ => "") : Leaves s t := by
  refine ⟨.inr hi, ?_⟩
  cases hs : s.behind with
  | none => exact ⟨0, by simp [hb, hs]⟩
  | some text => exact ⟨text.length, by simp [hb, hs]⟩

theorem trans {u : Shell τ} (h : Leaves s t) (h' : Leaves t u) : Leaves s u := by
  obtain ⟨n, hn⟩ := h.behind
  obtain ⟨m, hm⟩ := h'.behind
  refine ⟨?_, n + m, ?_⟩
  · rcases h'.input with hi | hi
    · rw [hi]
      exact h.input
    · exact .inr hi
  · rw [hm, hn]
    cases s.behind <;> simp

theorem length_remaining_le (h : Leaves s t) : t.remaining.length ≤ s.remaining.length := by
  obtain ⟨hi, n, hb⟩ := h
  have hbehind : (t.behind.getD "").length ≤ (s.behind.getD "").length := by
    rw [hb]
    cases s.behind with
    | none => exact Nat.le_refl 0
    | some text => exact Text.length_past_le n text
  unfold remaining
  rw [String.length_append, String.length_append]
  rcases hi with hi | hi <;> rw [hi]
  · omega
  · rw [String.length_empty]
    omega

theorem remaining_subset (h : Leaves s t) : t.remaining.toList ⊆ s.remaining.toList := by
  obtain ⟨hi, n, hb⟩ := h
  have hbehind : (t.behind.getD "").toList ⊆ (s.behind.getD "").toList := by
    rw [hb]
    cases s.behind with
    | none => exact List.Subset.refl _
    | some text => simpa [Text.past] using List.drop_subset n text.toList
  unfold remaining
  rw [String.toList_append, String.toList_append]
  rcases hi with hi | hi <;> rw [hi]
  · exact List.append_subset.mpr ⟨List.subset_append_left _ _,
      List.Subset.trans hbehind (List.subset_append_right _ _)⟩
  · simpa using List.Subset.trans hbehind (List.subset_append_right _ _)

end Leaves

/-- The wiring and the table of builtins are as before, and nothing has come to the input or to the
devices. -/
structure Rests (s t : Shell τ) : Prop where
  wiring : t.wiring = s.wiring
  registry : t.registry = s.registry
  input : Leaves s t
  devices : FileTree.NoNewDevice s.world.tree t.world.tree

theorem rests_of_tree (hw : t.wiring = s.wiring) (hr : t.registry = s.registry)
    (hi : Leaves s t) (ht : t.world.tree = s.world.tree) : Rests s t :=
  ⟨hw, hr, hi, fun _ _ h => ht ▸ h⟩

instance : IsPreorder (Shell τ) Rests where
  refl _ := rests_of_tree rfl rfl (.same rfl rfl) rfl
  trans _ _ _ h h' :=
    ⟨h'.wiring.trans h.wiring, h'.registry.trans h.registry, h.input.trans h'.input,
      trans_of FileTree.NoNewDevice h.devices h'.devices⟩

theorem FilesOnly.rests (h : FilesOnly s t) : Rests s t :=
  ⟨h.wiring, h.registry, .same h.input h.behind, h.devices⟩

theorem rests_writeTo (o : Outlet) (text : String) :
    Attempt.Keeps Rests (writeTo o text : Shell.Step τ Unit) := by
  cases o with
  | file stream =>
    exact (keeps_onFile stream (TextWriter.keeps_write text)).mono fun _ _ => FilesOnly.rests
  | full atOnce =>
    intro s
    obtain ⟨waiting, hfinal⟩ := exists_waiting atOnce text s
    exact hfinal ▸ rests_of_tree rfl rfl (.same rfl rfl) rfl
  | _ => exact Attempt.keeps_modify fun s => rests_of_tree rfl rfl (.same rfl rfl) rfl

theorem rests_readAll : Attempt.Keeps Rests (readAll : Shell.Step τ String) := by
  intro s
  rw [final_readAll]
  cases s.wiring.stdin with
  | own => exact rests_of_tree rfl rfl (.all rfl rfl) rfl
  | given => exact rests_of_tree rfl rfl (.same rfl rfl) rfl

theorem Roams.rests (h : Roams s t) : Rests s t :=
  rests_of_tree (by rw [h]) (by rw [h]) (.same (by rw [h]) (by rw [h])) (by rw [h])

theorem Reaches.rests (h : Reaches Roams s t) : Rests s t := by
  obtain ⟨said, h⟩ := h
  exact h.keeps (fun s stream text => rests_writeTo (s.wiring.outlet stream) text s) rests_readAll
    fun _ _ => Roams.rests

theorem rests_complain (text : String) :
    Attempt.Keeps Rests (complain text : Shell.Step τ Unit) :=
  Attempt.keeps_get fun s => ((rests_writeTo _ text).bind fun _ => rests_writeTo _ "\n") s

theorem rests_bound {step : Shell.Step τ α} (h : Attempt.Keeps Rests step)
    (change : Wiring → Wiring) : Attempt.Keeps Rests (bound change step) := by
  intro s
  have hs := h { s with wiring := change s.wiring }
  rw [final_bound]
  exact ⟨rfl, hs.registry, ⟨hs.input.input, hs.input.behind⟩, hs.devices⟩

theorem rests_redirected {step : Shell.Step τ α} (h : Attempt.Keeps Rests step)
    (r : Redirection) : Attempt.Keeps Rests (redirected r step) := by
  rw [redirected_eq]
  refine Attempt.Keeps.bind ?_ fun _ => Attempt.Keeps.ensure (Attempt.Keeps.bind ?_ fun _ =>
    (rests_bound h _).ensure ?_) ?_
  · exact (keeps_openDestination _ _).mono fun _ _ => FilesOnly.rests
  · exact (keeps_openDestination _ _).mono fun _ _ => FilesOnly.rests
  · exact (keeps_closeDestination _ _).mono fun _ _ => FilesOnly.rests
  · exact (keeps_closeDestination _ _).mono fun _ _ => FilesOnly.rests

theorem rests_reported {e : Engine τ} (he : e.OnlyRoams) (tag : τ) (c : Command) :
    Attempt.Keeps Rests ((e.handler tag c.args).handle (reportAs c.name)) := by
  refine Attempt.Keeps.handle ((he tag c.args).mono fun _ _ => Reaches.rests) fun f y hy => ?_
  · obtain ⟨-, rfl⟩ := reportAs_eq_some.mp hy
    exact (rests_complain _).bind fun _ => Attempt.keeps_pure _

theorem rests_invoke {e : Engine τ} (he : e.OnlyRoams) (tag : τ) (c : Command) :
    Attempt.Keeps Rests (invoke e tag c) :=
  rests_redirected ((rests_reported he tag c).ensure (Attempt.keeps_get fun s =>
    (keeps_flush _).mono (fun _ _ => FilesOnly.rests) s)) _

end Shell

namespace Job

open Shell

variable {τ α : Type} {e : Engine τ}

/-- The shell is in order, and so are the numbers of the open files. Nothing is left unread in a
tree where there is room. -/
structure Orderly (j j' : Job τ) : Prop where
  rests : Rests j.shell j'.shell
  numbered : j.Numbered → j'.Numbered
  unread : j.shell.world.tree.Roomy → j.unread = [] → j'.unread = []

instance : IsPreorder (Job τ) Orderly where
  refl j := ⟨refl_of Rests j.shell, id, fun _ => id⟩
  trans _ _ _ h h' := ⟨trans_of Rests h.rests h'.rests, h'.numbered ∘ h.numbered,
    fun hroomy hj => h'.unread (hroomy.of_noNewDevice h.rests.devices) (h.unread hroomy hj)⟩

theorem orderly_of_shell {j j' : Job τ} (h : Rests j.shell j'.shell) (hf : j'.files = j.files)
    (hn : j'.fresh = j.fresh) (hu : j'.unread = j.unread) : Orderly j j' :=
  ⟨h, fun hj => ⟨hf ▸ hj.nodup, by rw [hf, hn]; exact hj.below⟩, fun _ hj => hu.trans hj⟩

theorem orderly_inShell {step : Shell.Step τ α} (h : Attempt.Keeps Rests step) :
    Attempt.Keeps Orderly (inShell step) := by
  intro j
  have hs := h j.shell
  unfold Attempt.final inShell Attempt.within at *
  cases hstep : step j.shell <;>
    (rw [hstep] at hs; exact orderly_of_shell hs rfl rfl rfl)

theorem orderly_openDestination (d : Destination) :
    Attempt.Keeps Orderly (openDestination d : Job.Step τ (Option Nat)) := by
  intro j
  have hs := keeps_openHeld d j.shell
  unfold Attempt.final at *
  rw [openDestination_apply]
  cases hopen : openHeld d j.shell with
  | ok w s =>
    rw [hopen] at hs
    exact ⟨(hold_shell j w s).symm ▸ hs.rests, fun hj => hj.hold w s, fun _ hj => by
      rw [hold_unread, hj]⟩
  | error f s =>
    rw [hopen] at hs
    exact orderly_of_shell hs.rests rfl rfl rfl

theorem orderly_onFile (n : Nat) {step : BlockWriter.Writing Unit}
    (hstep : Attempt.Keeps (Stays BlockWriter.place) step) :
    Attempt.Keeps Orderly (onFile n step : Job.Step τ Unit) := by
  intro j
  cases hf : j.file? n with
  | none =>
    simp only [Attempt.final, onFile, hf]
    exact refl_of Orderly j
  | some w =>
    have hstays := (hstep (w, j.shell.world.tree)).noNewDevice
    rw [final_onFile hf]
    exact ⟨⟨rfl, rfl, .same rfl rfl, hstays⟩, fun hj => hj.setFile n _ _, fun _ => id⟩

/-- A step that leaves all in order and cannot fail. -/
structure Quiet (x : Job.Step τ α) : Prop where
  orderly : Attempt.Keeps Orderly x
  never : Attempt.Throws (fun _ => False) x

section

variable {β : Type}

theorem quiet_pure (a : α) : Quiet (pure a : Job.Step τ α) :=
  ⟨Attempt.keeps_pure a, Attempt.throws_pure a⟩

theorem quiet_modify {f : Job τ → Job τ} (h : ∀ j, Orderly j (f j)) :
    Quiet (modify f : Job.Step τ PUnit) :=
  ⟨Attempt.keeps_modify h, Attempt.throws_modify f⟩

theorem quiet_get {f : Job τ → Job.Step τ α} (h : ∀ j, Quiet (f j)) : Quiet (get >>= f) :=
  ⟨Attempt.keeps_get fun j => (h j).orderly j, Attempt.throws_get.bind fun j => (h j).never⟩

theorem Quiet.bind {x : Job.Step τ α} {f : α → Job.Step τ β} (hx : Quiet x)
    (hf : ∀ a, Quiet (f a)) : Quiet (x >>= f) :=
  ⟨hx.orderly.bind fun a => (hf a).orderly, hx.never.bind fun a => (hf a).never⟩

theorem quiet_outcome {x : Job.Step τ α} (h : Attempt.Keeps Orderly x) :
    Quiet (x.outcome : Job.Step τ (Except Failure α)) :=
  ⟨Attempt.keeps_outcome h, Attempt.throws_outcome x⟩

end

theorem Quiet.discard {x : Job.Step τ α} (h : Quiet x) : Quiet (discard x : Job.Step τ PUnit) :=
  ⟨Attempt.keeps_discard h.orderly, h.never.discard⟩

theorem Noted.quiet {x : Job.Step τ α} (h : Noted x) : Quiet x where
  orderly := h.keeps fun j j' hj => ⟨hj.shell ▸ refl_of Rests j.shell, fun hn =>
    ⟨hj.files ▸ hn.nodup, fun f hf => Nat.lt_of_lt_of_le (hn.below f (hj.files ▸ hf)) hj.fresh⟩,
    fun _ => hj.unread.trans⟩
  never j e j' hx := by
    obtain ⟨a, j₁, hj, -⟩ := h j
    rw [hj] at hx
    cases hx

theorem quiet_setPending (p : Pending) : Quiet (setPending p : Job.Step τ Unit) :=
  quiet_modify fun j => orderly_of_shell (refl_of Rests j.shell) rfl rfl rfl

theorem quiet_claim (pipe : Nat) (c : Consumer) : Quiet (claim pipe c : Job.Step τ Unit) :=
  (noted_note _).quiet.bind fun _ => quiet_setPending _

theorem quiet_putAll (n : Nat) (pieces : List ByteArray) :
    Quiet (putAll n pieces : Job.Step τ (Option Nat)) := by
  induction pieces with
  | nil => exact quiet_pure _
  | cons piece pieces ih =>
    refine (quiet_outcome (orderly_onFile n (BlockWriter.keeps_put piece))).bind fun result => ?_
    cases result with
    | ok _ => exact ih
    | error _ => exact quiet_pure _

theorem putAll_of_roomy {j : Job τ} (h : j.shell.world.tree.Roomy) (n : Nat)
    (pieces : List ByteArray) : ∃ j', putAll n pieces j = .ok none j' := by
  cases hfile : j.file? n with
  | none => exact ⟨j, putAll_of_none hfile pieces⟩
  | some w => exact exists_putAll hfile (h _) pieces

theorem quiet_relayToFile (n pipe : Nat) (pieces : List ByteArray) :
    Quiet (relayToFile e n pipe pieces) := by
  have hput := quiet_putAll (τ := τ) n (Relay.copy e.host e.chunkSize pieces)
  have hclose : Quiet (closePipe pipe : Job.Step τ Unit) := (noted_closePipe pipe).quiet
  constructor
  · intro j
    cases hj : putAll n (Relay.copy e.host e.chunkSize pieces) j with
    | error f i => exact (hput.never j f i hj).elim
    | ok left i =>
      have horder := hput.orderly.ok hj
      rw [relayToFile, Attempt.final_bind_of_ok hj]
      cases left with
      | none => exact trans_of Orderly horder (hclose.orderly i)
      | some left =>
        refine ⟨horder.rests, fun hn => ⟨(horder.numbered hn).nodup, (horder.numbered hn).below⟩,
          fun hroomy => ?_⟩
        obtain ⟨i', hi⟩ := putAll_of_roomy hroomy n (Relay.copy e.host e.chunkSize pieces)
        rw [hi] at hj
        cases hj
  · refine hput.never.bind fun left => ?_
    cases left with
    | none => exact hclose.never
    | some left => exact fun j e j' h => by cases h

theorem quiet_drain : Quiet (drain : Job.Step τ (Option String)) := by
  refine quiet_get fun j => ?_
  cases j.pending with
  | nothing => exact quiet_pure _
  | text s => exact quiet_pure _
  | stream pipe pieces =>
    exact (quiet_claim pipe .drain).bind fun _ => (noted_closePipe pipe).quiet.bind fun _ =>
      quiet_pure _

theorem leaves_drawn (s : Shell τ) (amount : Nat) : Leaves s (drawn s amount) := by
  unfold drawn
  cases hs : s.behind with
  | none => exact .all rfl (by simp [hs])
  | some text => exact ⟨.inl rfl, amount, by simp [hs]⟩

theorem rests_drawn (s : Shell τ) (amount : Nat) : Rests s (drawn s amount) := by
  refine ⟨?_, ?_, leaves_drawn s amount, ?_⟩ <;> (unfold drawn; cases s.behind)
  · rfl
  · rfl
  · rfl
  · rfl
  · exact refl_of FileTree.NoNewDevice s.world.tree
  · exact refl_of FileTree.NoNewDevice s.world.tree

theorem quiet_feed (input : Option Nat) (amount : Nat) :
    Quiet (feed input amount : Job.Step τ Unit) := by
  refine quiet_get fun j => ?_
  cases j.pending with
  | nothing =>
    have hread : Quiet (modify fun j : Job τ =>
        { j with shell := drawn j.shell amount } : Job.Step τ PUnit) :=
      quiet_modify fun j => orderly_of_shell (rests_drawn j.shell amount) rfl rfl rfl
    exact hread.bind fun _ => (noted_serve input).quiet
  | text s => exact (quiet_setPending _).bind fun _ => (noted_serve input).quiet
  | stream pipe pieces =>
    exact (quiet_claim _ _).bind fun _ => (noted_serve input).quiet.bind fun _ =>
      (noted_closePipe pipe).quiet

theorem quiet_writeOutput (out err : Option Nat) (output : Output) :
    Quiet (writeOutput out err output : Job.Step τ Unit) := by
  induction output with
  | nil => exact quiet_pure _
  | cons p output ih =>
    obtain ⟨_ | _, bytes⟩ := p <;> cases out <;> cases err <;>
      first | exact (quiet_putAll _ _).discard.bind fun _ => ih | exact ih

theorem quiet_receive (stream : Stream) (pipe : Option Nat) (pieces : List ByteArray) :
    Quiet (receive stream pipe pieces : Job.Step τ Unit) := by
  refine Quiet.bind (quiet_modify fun j => orderly_of_shell ?_ rfl rfl rfl) fun _ =>
    (noted_serve pipe).quiet
  dsimp only
  cases j.shell.wiring.outlet stream <;> exact rests_of_tree rfl rfl (.same rfl rfl) rfl

theorem quiet_handOn (last : Bool) (out pipe : Option Nat) (pieces : List ByteArray) :
    Quiet (handOn last out pipe pieces : Job.Step τ Unit) := by
  cases last with
  | true =>
    cases out with
    | none => exact (quiet_receive _ _ _).bind fun _ => quiet_setPending _
    | some n => exact quiet_setPending _
  | false =>
    cases pipe with
    | none => exact quiet_setPending _
    | some n => exact (noted_note _).quiet.bind fun _ => quiet_setPending _

/-- Nothing goes wrong any more once a process has started. -/
theorem quiet_attend (last : Bool) (out err : Option Nat) (amount : Nat) (output : Output) :
    Quiet (attend last out err amount output : Job.Step τ Unit) := by
  refine (noted_spawn last out err).quiet.bind fun ends => (quiet_feed _ _).bind fun _ =>
    (quiet_writeOutput out err output).bind fun _ => ?_
  cases err with
  | none => exact (quiet_receive _ _ _).bind fun _ => quiet_handOn _ _ _ _
  | some n => exact quiet_handOn _ _ _ _

theorem orderly_runEmpty (r : Redirection) : Attempt.Keeps Orderly (runEmpty e r) := by
  refine Attempt.Keeps.bind (Attempt.keeps_discard (orderly_openDestination _)) fun _ =>
    (orderly_openDestination _).bind fun out => ?_
  cases out with
  | none => exact Attempt.keeps_pure _
  | some n =>
    refine Attempt.keeps_get fun j => ?_
    cases j.pending with
    | nothing => exact (quiet_setPending _).orderly j
    | text s =>
      have hwrite : Attempt.Keeps Orderly (onFile n _ : Job.Step τ Unit) :=
        orderly_onFile n (BlockWriter.keeps_write (Text.encode s))
      exact (hwrite.bind fun _ => (quiet_setPending _).orderly) j
    | stream pipe pieces =>
      exact ((quiet_claim pipe .relay).bind fun _ => noted_startHelper.quiet.bind fun _ =>
        (quiet_relayToFile n pipe pieces).bind fun _ => quiet_setPending _).orderly j

theorem orderly_runBuiltin (he : e.OnlyRoams) (tag : τ) (c : Command) (last : Bool) :
    Attempt.Keeps Orderly (runBuiltin e tag c last) := by
  refine quiet_drain.orderly.bind fun given => Attempt.Keeps.bind
    (Attempt.keeps_modify fun j =>
      orderly_of_shell (rests_of_tree rfl rfl (.same rfl rfl) rfl) rfl rfl rfl) fun _ =>
    (orderly_inShell (rests_bound (rests_invoke he tag c) _)).bind fun _ => ?_
  exact Attempt.keeps_modify fun j => orderly_of_shell (refl_of Rests j.shell) rfl rfl rfl

theorem orderly_launch (c : Command) (last : Bool) (path : String) (out err : Option Nat) :
    Attempt.Keeps Orderly (launch e c last path out err) := by
  unfold launch
  cases (c.name :: c.args).all FileTree.isPath with
  | false => exact Attempt.keeps_throw _
  | true =>
    refine Attempt.keeps_get fun j => ?_
    dsimp only
    split
    · exact Attempt.keeps_throw _ j
    · exact (quiet_attend _ _ _ _ _).orderly j

theorem orderly_runProcess (c : Command) (last : Bool) :
    Attempt.Keeps Orderly (runProcess e c last) := by
  rw [runProcess_eq]
  refine Attempt.keeps_get fun j => ?_
  cases j.shell.locate c.name with
  | none => exact Attempt.keeps_throw _ j
  | some path =>
    exact ((orderly_openDestination _).bind fun _ => (orderly_openDestination _).bind fun _ =>
      orderly_launch c last path _ _) j

theorem orderly_runStage (he : e.OnlyRoams) (c : Command) (last : Bool) :
    Attempt.Keeps Orderly (runStage e c last) := by
  unfold runStage
  split
  · exact orderly_runEmpty _
  · refine Attempt.keeps_get fun j => ?_
    dsimp only
    split
    · split
      · exact orderly_runBuiltin he _ c last j
      · exact Attempt.keeps_throw _ j
    · exact orderly_runProcess c last j

theorem orderly_runStages (he : e.OnlyRoams) (cs : List Command) :
    Attempt.Keeps Orderly (runStages e cs) := by
  induction cs with
  | nil => exact Attempt.keeps_pure _
  | cons c cs ih => exact (orderly_runStage he c _).bind fun _ => ih

theorem orderly_emit : Attempt.Keeps Orderly (emit : Job.Step τ Unit) := by
  rw [emit_eq]
  refine Attempt.keeps_get fun j => ?_
  generalize j.shell.wiring.stdout = o
  cases j.pending with
  | nothing => exact Attempt.keeps_pure _ j
  | text s =>
    have hlet : Attempt.Keeps Rests (writeTo o s >>= fun _ => flush o : Shell.Step τ Unit) :=
      (rests_writeTo o s).bind fun _ => (keeps_flush o).mono fun _ _ => FilesOnly.rests
    exact ((orderly_inShell hlet).bind fun _ => (quiet_setPending _).orderly) j
  | stream pipe pieces =>
    exact ((quiet_claim pipe .pump).bind fun _ => noted_startHelper.quiet.bind fun _ =>
      (quiet_outcome (orderly_inShell (rests_writeTo o _))).discard.bind fun _ =>
      (noted_closePipe pipe).quiet).orderly j

theorem orderly_shutAll (fs : List (Nat × BlockWriter)) :
    Attempt.Keeps Orderly (shutAll fs : Job.Step τ Unit) := by
  induction fs with
  | nil => exact Attempt.keeps_modify fun j => ⟨refl_of Rests j.shell, fun _ =>
      ⟨List.nodup_nil, by simp⟩, fun _ => id⟩
  | cons f fs ih =>
    exact ((orderly_onFile f.1 BlockWriter.keeps_flush).ensure
      (noted_note _).quiet.orderly).ensure ih

theorem orderly_finish (room : Nat) : Attempt.Keeps Orderly (finish room : Job.Step τ Unit) := by
  intro j
  have hshell : Rests j.shell j.dropped.shell := j.dropped_shell ▸ refl_of Rests j.shell
  unfold Attempt.final
  by_cases hstuck : j.Stuck room
  · obtain ⟨before, -, hfinish⟩ := finish_of_stuck hstuck
    rw [hfinish]
    exact orderly_of_shell hshell j.dropped_files j.dropped_fresh j.dropped_unread
  · have hdropped : Orderly j j.dropped :=
      orderly_of_shell hshell j.dropped_files j.dropped_fresh j.dropped_unread
    have hended : Orderly j.dropped j.stopped :=
      ⟨refl_of Rests j.dropped.shell, fun hn => ⟨hn.nodup, hn.below⟩, fun _ _ => rfl⟩
    have hstopped : Orderly j j.stopped := trans_of Orderly hdropped hended
    rw [finish_of_not_stuck hstuck]
    exact trans_of Orderly hstopped (orderly_shutAll j.files j.stopped)

theorem orderly_run (he : e.OnlyRoams) (p : Pipeline) : Attempt.Keeps Orderly (run e p) :=
  ((orderly_runStages he p.stages).bind fun _ => orderly_emit).ensure
    (orderly_finish _)

end Job

section

variable {τ : Type} {e : Engine τ}

theorem Pipeline.rests_execute (he : e.OnlyRoams) (p : Pipeline) :
    Attempt.Keeps Shell.Rests (p.execute e) := by
  intro s
  have hrun := (Job.orderly_run he p (Job.start s)).rests
  unfold Attempt.final Pipeline.execute at *
  cases p.isIdle with
  | true => exact refl_of Shell.Rests s
  | false =>
    cases h : Job.run e p (Job.start s) <;> (rw [h] at hrun; exact hrun)

theorem Shell.rests_runLine (he : e.OnlyRoams) (line : String) :
    Attempt.Keeps Shell.Rests (Shell.runLine e line) := by
  unfold Shell.runLine
  dsimp only
  split
  · exact Attempt.keeps_pure _
  · have hnoted : ∀ s : Shell τ, Shell.Rests s { s with
        history := s.history.add (Pipeline.parse line) } :=
      fun s => Shell.rests_of_tree rfl rfl (.same rfl rfl) rfl
    refine Attempt.Keeps.bind (Attempt.keeps_modify hnoted) fun _ =>
      (Pipeline.rests_execute he _).handle fun f y hy => ?_
    cases f with
    | shell g =>
      cases hy
      exact (Shell.rests_complain _).bind fun _ => Attempt.keeps_pure _
    | fault g => cases hy
    | other m => cases hy
    | endless => cases hy

end

end PipelineShell
