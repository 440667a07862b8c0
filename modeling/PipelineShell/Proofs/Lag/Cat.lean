import PipelineShell.Proofs.Lag.Between

/-! A stage without a name, and the stage `cat` with the same targets. Both take the whole text that
comes to them. The one holds what is less than a block until the job ends, the other lets it out. -/

namespace PipelineShell

open Attempt FileTree

/-- The stage that copies its input where this one would pass it. -/
def Command.asCat (c : Command) : Command :=
  ⟨"cat", [], c.redirection⟩

def Destination.opening (dir : Location) (d : Destination) :
    Attempt Failure FileTree (Option BlockWriter) := fun t =>
  match d.openIn dir t with
  | .ok place u => .ok (place.map (BlockWriter.start · d.append)) u
  | .error f u => .error (Shell.targetFailure (d.target.getD "") f) u

section

variable {d : Destination} {dir : Location} {t u : FileTree} {f : Failure}

theorem Destination.opening_eq_ok {w : Option BlockWriter} : d.opening dir t = .ok w u ↔
    ∃ place, d.openIn dir t = .ok place u ∧ w = place.map (BlockWriter.start · d.append) := by
  unfold opening
  cases d.openIn dir t with
  | error g v => simp
  | ok place v =>
    constructor
    · rintro ⟨⟩
      exact ⟨place, rfl, rfl⟩
    · rintro ⟨_, ⟨rfl, rfl⟩, rfl⟩
      rfl

theorem Destination.opening_eq_error : d.opening dir t = .error f u ↔
    ∃ g, d.openIn dir t = .error g u ∧ f = Shell.targetFailure (d.target.getD "") g := by
  unfold opening
  cases d.openIn dir t with
  | ok place v => simp
  | error g v =>
    constructor
    · rintro ⟨⟩
      exact ⟨g, rfl, rfl⟩
    · rintro ⟨_, ⟨rfl, rfl⟩, rfl⟩
      rfl

theorem Shell.openHeld_eq {τ : Type} (d : Destination) (s : Shell τ) : openHeld d s =
    match d.opening s.world.dir s.world.tree with
    | .ok w t => .ok w (s.setTree t)
    | .error f t => .error f (s.setTree t) := by
  rw [openHeld_apply, Destination.opening]
  cases d.openIn s.world.dir s.world.tree <;> rfl

theorem Destination.isSome_of_opening {w : Option BlockWriter} (h : d.opening dir t = .ok w u) :
    w.isSome = d.target.isSome := by
  obtain ⟨place, hin, rfl⟩ := opening_eq_ok.mp h
  unfold openIn at hin
  cases hd : d.target with
  | none =>
    rw [hd] at hin
    cases hin
    rfl
  | some path =>
    rw [hd] at hin
    obtain ⟨_, _, _, hp⟩ := bind_eq_ok.mp hin
    cases hp
    rfl

theorem Destination.held_isEmpty {w : BlockWriter} (h : d.opening dir t = .ok (some w) u) :
    w.held.isEmpty = true := by
  obtain ⟨place, -, hw⟩ := opening_eq_ok.mp h
  obtain ⟨_, -, rfl⟩ := Option.map_eq_some_iff.mp hw.symm
  rfl

end

namespace Redirection

variable {r : Redirection} {dir : Location} {t u : FileTree} {out err : Option BlockWriter}

def openErrFirst (dir : Location) (r : Redirection) :
    Attempt Failure FileTree (Option BlockWriter × Option BlockWriter) := do
  let err ← r.stderr.opening dir
  let out ← r.stdout.opening dir
  pure (out, err)

def openOutFirst (dir : Location) (r : Redirection) :
    Attempt Failure FileTree (Option BlockWriter × Option BlockWriter) := do
  let out ← r.stdout.opening dir
  let err ← r.stderr.opening dir
  pure (out, err)

/-- It makes no difference which of the targets is opened first. -/
def OrderFree (r : Redirection) (dir : Location) (t : FileTree) : Prop :=
  Agree SameEntries SameEntries (r.openErrFirst dir t) (r.openOutFirst dir t)

theorem orderFree_of_target_eq_none (h : r.stderr.target = Option.none) : r.OrderFree dir t := by
  have hnothing : ∀ u, r.stderr.opening dir u = .ok Option.none u := by
    intro u
    simp [Destination.opening, Destination.openIn, h]
  unfold OrderFree openErrFirst openOutFirst
  rw [bind_of_ok (hnothing t), bind_apply, bind_apply]
  cases r.stdout.opening dir t with
  | error f u => exact .error ⟨rfl, fun _ => rfl⟩
  | ok out u =>
    dsimp only
    rw [bind_of_ok (hnothing u)]
    exact .ok ⟨rfl, fun _ => rfl⟩

end Redirection

namespace BlockWriter

variable {place : Location} {append : Bool} {bytes : ByteArray} {t t' : FileTree}

/-- What the open file is still to let out, as what its place is still to get. -/
def lag (w : BlockWriter) (t : FileTree) : Option Lag :=
  if w.held.isEmpty then none
  else (t.get? w.place).map fun e => ⟨w.place, e, w.change w.held⟩

/-- Bytes written to a file that was just opened are let out or held, and where they are held the
tree is behind one in which they are let out. -/
theorem exists_write_lag (hthere : ∃ e, t.get? place = some e)
    (hroom : (start place append).HasRoom bytes t) : ∃ w u,
      write bytes (start place append, t) = .ok () (w, u) ∧
      (∀ ws : List BlockWriter, (∀ v ∈ ws, v.held.isEmpty = true) → Due (w.lag u) (w :: ws)) ∧
      ∀ t', SameEntries t t' →
        Lags (w.lag u) u ((start place append).released bytes t') := by
  obtain ⟨e, he⟩ := hthere
  by_cases hfit : bytes.size ≤ t.blockSize
  · refine ⟨_, _, write_start_of_le place append hfit, ?_⟩
    cases hbytes : bytes.isEmpty with
    | true =>
      have hlag : ({ start place append with held := bytes } : BlockWriter).lag t = none :=
        if_pos hbytes
      rw [hlag]
      refine ⟨fun ws hws => due_of_isEmpty (List.forall_mem_cons.mpr ⟨hbytes, hws⟩),
        fun t' h => ?_⟩
      rw [released, if_pos hbytes]
      exact lags_none_iff.mpr h
    | false =>
      have hlag : ({ start place append with held := bytes } : BlockWriter).lag t =
          some ⟨place, e, (start place append).change bytes⟩ := by
        have hsome : ¬bytes.isEmpty = true := by simp [hbytes]
        exact (if_neg hsome).trans (congrArg (Option.map _) he)
      have hfull : e ≠ .device .full := by
        rintro rfl
        exact (hroom.resolve_left (by simp [hbytes])) he
      rw [hlag]
      refine ⟨fun ws hws => ?_, fun t' h => ⟨?_, ?_, fun l => ?_⟩⟩
      · exact due_of_held (w := { start place append with held := bytes }) hbytes hfull hws
      · rw [released, if_neg (by simp [hbytes]), blockSize_revise, h.blocks]
      · rintro _ ⟨⟩
        exact he
      · rw [released, if_neg (by simp [hbytes]), catchUp, get?_revise, get?_revise, h.there l]
        rfl
  · have hput := put_eq hroom
    have hheld : ((start place append).moved bytes).held.isEmpty = true := by
      rw [moved_held]
      rfl
    have hlag : ∀ u, ((start place append).moved bytes).lag u = none := fun u => if_pos hheld
    refine ⟨_, _, (write_start_of_lt place append (Nat.lt_of_not_le hfit)).trans hput, ?_⟩
    rw [hlag]
    refine ⟨fun ws hws => due_of_isEmpty (List.forall_mem_cons.mpr ⟨hheld, hws⟩), fun t' h => ?_⟩
    unfold released
    split
    · exact lags_none_iff.mpr h
    · exact (lags_none_iff.mpr h).revise (settled_none _) _

end BlockWriter

namespace Shell

section

variable {τ α : Type} {s : Shell τ} {r : Redirection} {u : FileTree} {out err : Option BlockWriter}
  {f : Failure}

@[simp] theorem setTree_dir (s : Shell τ) (t : FileTree) : (s.setTree t).world.dir = s.world.dir :=
  rfl

@[simp] theorem setTree_tree (s : Shell τ) (t : FileTree) : (s.setTree t).world.tree = t := rfl

def fresh (w : BlockWriter) : TextWriter :=
  ⟨w, .empty⟩

theorem closeFile_of_empty {stream : Stream} {w : TextWriter} (h : s.file stream = some w)
    (hw : w.Empty) : closeFile stream s = .ok () (s.setFile stream none) := by
  obtain ⟨v, hclose⟩ := TextWriter.close_of_empty (t := s.world.tree) hw
  unfold closeFile Attempt.ensure
  rw [onFile_of_some h, hclose]
  cases stream <;> rfl

theorem closeDestination_of_empty {stream : Stream} {d : Destination} {w : Option TextWriter}
    (h : s.file stream = w) (hd : w.isSome = d.target.isSome) (hw : ∀ v ∈ w, v.Empty) :
    closeDestination stream d s = .ok () (s.setFile stream none) := by
  cases w with
  | none =>
    have hnone : s.setFile stream none = s := by
      rw [← h]
      cases stream <;> rfl
    rw [closeDestination, ← hd, hnone]
    rfl
  | some v =>
    rw [closeDestination, ← hd]
    exact closeFile_of_empty h (hw v rfl)

theorem setFile_of_file {stream : Stream} {w : Option TextWriter} (h : s.file stream = w)
    (t : FileTree) : (s.setTree t).setFile stream w = s.setTree t := by
  subst h
  cases stream <;> rfl

theorem openTargets_of_openOutFirst (hout : s.outFile = none) (herr : s.errFile = none)
    (h : r.openOutFirst s.world.dir s.world.tree = .ok (out, err) u) : openTargets r s =
      .ok () { s.setTree u with outFile := out.map fresh, errFile := err.map fresh } := by
  obtain ⟨_, u₁, hfirst, h⟩ := bind_eq_ok.mp h
  obtain ⟨_, u₂, hsecond, h⟩ := bind_eq_ok.mp h
  cases h
  obtain ⟨place, hin, rfl⟩ := Destination.opening_eq_ok.mp hfirst
  obtain ⟨place', hin', rfl⟩ := Destination.opening_eq_ok.mp hsecond
  have hopen : openDestination .stdout r.stdout s = .ok () (s.took .stdout r.stdout place u₁) := by
    rw [openDestination_apply, hin]
  rw [openTargets, bind_of_ok hopen, openDestination_apply, took_dir, took_tree, hin']
  obtain ⟨_, _, _, _, _, _, _, _, _, _, _, _⟩ := s
  subst hout herr
  cases place <;> cases place' <;> rfl

theorem redirected_of_openOutFirst {step : Shell.Step τ α} (hout : s.outFile = none)
    (h : r.openOutFirst s.world.dir s.world.tree = .error f u) :
    redirected r step s = .error f (s.setTree u) := by
  rw [redirected_eq]
  rcases bind_eq_error.mp h with hfirst | ⟨_, u₁, hfirst, h⟩
  · obtain ⟨g, hin, rfl⟩ := Destination.opening_eq_error.mp hfirst
    refine bind_of_error ?_ _
    rw [openDestination_apply, hin]
  · rcases bind_eq_error.mp h with hsecond | ⟨_, _, _, h⟩
    · obtain ⟨place, hin, -⟩ := Destination.opening_eq_ok.mp hfirst
      obtain ⟨g, hin', rfl⟩ := Destination.opening_eq_error.mp hsecond
      have hopen : openDestination .stdout r.stdout s =
          .ok () (s.took .stdout r.stdout place u₁) := by
        rw [openDestination_apply, hin]
      have hclose := closeDestination_took u hin
      have hnone : s.file .stdout = none := hout
      rw [hout, ite_self, setFile_of_file hnone] at hclose
      rw [bind_of_ok hopen]
      refine ensure_eq_error.mpr (.inr ⟨_, bind_of_error ?_ _, hclose⟩)
      rw [openDestination_apply, took_dir, took_tree, hin']
    · cases h

end

variable {e : Engine CommandTag} {s : Shell CommandTag} {r : Redirection} {u : FileTree}
  {place : Location} {append : Bool} {err : Option BlockWriter}

theorem onFile_stdout {step : TextWriter.Writing Unit} {w v : TextWriter} (h : s.outFile = some w)
    (hstep : step (w, s.world.tree) = .ok () (v, u)) :
    onFile .stdout step s = .ok () { s.setTree u with outFile := some v } := by
  have hfile : s.file .stdout = some w := h
  rw [onFile_of_some hfile, hstep]
  rfl

theorem exists_called_cat (he : e.handler = Session.runCommand)
    (hin : s.wiring.stdin = .given) (hto : s.wiring.stdout = .file .stdout)
    (hfile : s.outFile = some (.start place append))
    (hroom : (BlockWriter.start place append).HasRoom (Text.encode s.given) s.world.tree) : ∃ w,
      w.Empty ∧ called e (.inl .cat) ⟨"cat", [], r⟩ s =
        .ok true { s.setTree ((BlockWriter.start place append).released (Text.encode s.given)
          s.world.tree) with given := "", outFile := some w } := by
  obtain ⟨w, u, v, hwrite, hflush, hv⟩ := TextWriter.exists_write_flush hroom
  refine ⟨v, hv, ?_⟩
  have hread : readAll s = .ok s.given { s with given := "" } := by
    rw [readAll, bind_of_ok (get_apply s), hin]
    rfl
  have hwritten : write s.given { s with given := "" } =
      .ok () { s.setTree u with given := "", outFile := some w } := by
    rw [write, bind_of_ok (get_apply _), hto]
    exact onFile_stdout hfile hwrite
  have hcat : Session.runCommand (.inl .cat) [] s =
      .ok true { s.setTree u with given := "", outFile := some w } := by
    have hrun : Session.runCommand (.inl .cat) [] s =
        (readAll >>= fun text => write text >>= fun _ => pure true) s := rfl
    rw [hrun, bind_of_ok hread, bind_of_ok hwritten]
    rfl
  rw [called, he]
  refine ensure_eq_ok.mpr ⟨_, handle_of_ok hcat _, ?_⟩
  rw [bind_of_ok (get_apply _)]
  dsimp only [setTree]
  rw [hto]
  exact onFile_stdout (s := { s.setTree u with given := "", outFile := some w }) rfl hflush

theorem invoke_cat (he : e.handler = Session.runCommand) (hin : s.wiring.stdin = .given)
    (hout : s.outFile = none) (herr : s.errFile = none)
    (hopen : r.openOutFirst s.world.dir s.world.tree = .ok (some (.start place append), err) u)
    (hroom : (BlockWriter.start place append).HasRoom (Text.encode s.given) u) :
    invoke e (.inl .cat) ⟨"cat", [], r⟩ s =
      .ok true { s.setTree ((BlockWriter.start place append).released (Text.encode s.given) u) with
        given := "" } := by
  have htargets := openTargets_of_openOutFirst hout herr hopen
  obtain ⟨_, u₁, hfirst, hopen⟩ := bind_eq_ok.mp hopen
  obtain ⟨_, u₂, hsecond, hopen⟩ := bind_eq_ok.mp hopen
  cases hopen
  have htarget := Destination.isSome_of_opening hfirst
  have htarget' := Destination.isSome_of_opening hsecond
  have hto : (rewire r s.wiring).stdout = .file .stdout := if_pos htarget.symm
  obtain ⟨w, hw, hcalled⟩ := exists_called_cat he (r := r)
    (s := { s.setTree u with
      outFile := some (.start place append)
      errFile := err.map fresh
      wiring := rewire r s.wiring }) hin hto rfl hroom
  rw [invoke, redirected_of_openTargets htargets]
  have hempty : ∀ v ∈ err.map fresh, v.Empty := by
    rintro _ hv
    obtain ⟨v, rfl, rfl⟩ := Option.map_eq_some_iff.mp hv
    exact ⟨rfl, Destination.held_isEmpty hsecond⟩
  refine ensure_eq_ok.mpr ⟨_, ensure_eq_ok.mpr ⟨_, bound_eq_ok.mpr ⟨_, hcalled, rfl⟩,
    closeDestination_of_empty rfl ?_ hempty⟩, ?_⟩
  · rw [← htarget']
    cases err <;> rfl
  · have hclose : ∀ t : Shell CommandTag, t.outFile = some w →
        closeDestination .stdout r.stdout t = .ok () (t.setFile .stdout none) :=
      fun t ht => closeDestination_of_empty ht htarget fun v hv => by cases hv; exact hw
    rw [hclose _ rfl]
    obtain ⟨_, _, _, _, _, _, _, _, _, _, _, _⟩ := s
    subst hout herr
    rfl

end Shell

namespace Job

open Shell

section

variable {τ : Type} {e : Engine τ} {j : Job τ} {r : Redirection} {u : FileTree}
  {out err : Option BlockWriter} {f : Failure}

/-- What the file that was opened last is still to let out. -/
def lag (j : Job τ) : Option Lag :=
  j.files.head?.bind fun f => f.2.lag j.shell.world.tree

theorem hold_hold (j : Job τ) (w w' : Option BlockWriter) (s s' t : Shell τ) :
    (j.hold w s).hold w' t = (j.hold w s').hold w' t := by
  cases w <;> cases w' <;> rfl

theorem exists_runEmpty_error (e : Engine τ)
    (h : r.openErrFirst j.shell.world.dir j.shell.world.tree = .error f u) :
    ∃ err : Option BlockWriter, (∀ w ∈ err, w.held.isEmpty = true) ∧
      runEmpty e r j = .error f (j.hold err (j.shell.setTree u)) := by
  rw [runEmpty_apply, openHeld_eq]
  rcases bind_eq_error.mp h with hfirst | ⟨err, u₁, hfirst, h⟩
  · rw [hfirst]
    exact ⟨none, nofun, rfl⟩
  · refine ⟨err, ?_, ?_⟩
    · rintro w rfl
      exact Destination.held_isEmpty hfirst
    · rcases bind_eq_error.mp h with hsecond | ⟨_, _, _, h⟩
      · rw [hfirst]
        dsimp only
        rw [openHeld_eq, setTree_dir, setTree_tree, hsecond]
        cases err <;> rfl
      · cases h

theorem runEmpty_of_openErrFirst (e : Engine τ)
    (h : r.openErrFirst j.shell.world.dir j.shell.world.tree = .ok (out, err) u) :
    runEmpty e r j = takeIn e (out.map fun _ => (j.hold err j.shell).fresh)
      ((j.hold err j.shell).hold out (j.shell.setTree u)) := by
  obtain ⟨_, u₁, hfirst, h⟩ := bind_eq_ok.mp h
  obtain ⟨_, u₂, hsecond, h⟩ := bind_eq_ok.mp h
  cases h
  rw [runEmpty_apply, openHeld_eq, hfirst]
  dsimp only
  rw [openHeld_eq, setTree_dir, setTree_tree, hsecond]
  dsimp only
  rw [hold_hold j err out _ j.shell]
  cases err <;> rfl

/-- Neither the order of the targets nor a target without room makes a difference to what this stage
does with the text that comes to it. -/
structure Passable (c : Command) (j : Job τ) : Prop where
  order : c.redirection.OrderFree j.shell.world.dir j.shell.world.tree
  room : ∀ out err u, c.redirection.openOutFirst j.shell.world.dir j.shell.world.tree =
    .ok (some out, err) u → out.HasRoom (Text.encode j.leftText) u

end

section

variable {e : Engine CommandTag} {j : Job CommandTag} {c : Command} {last : Bool} {text : String}
  {t u u' : FileTree} {err : Option BlockWriter}
  (hcat : j.shell.registry.get? "cat" = some (.inl .cat)) (hp : j.pending = .text text)

theorem behind_setTree {g : Option Lag} (hj : j.Between) (h : Lags g t u)
    (given captured : String) : Behind g (j.shell.setTree t)
      { j.shell.setTree u with given := given, captured := captured } := by
  refine ⟨.intro (s := j.shell.setTree t) u h trivial fun stream w hw => ?_⟩
  have hnone := hj.unopened stream
  cases stream <;> exact absurd (hnone.symm.trans hw) nofun

include hp

theorem builtinShell_of_text : j.builtinShell last = { j.shell with
    given := text
    captured := ""
    wiring := stageWiring true last j.shell.wiring } := by
  rw [builtinShell, drained, hp]
  rfl

include hcat

theorem runStage_asCat_eq : runStage e c.asCat last j =
    match invoke e (.inl .cat) c.asCat (j.builtinShell last) with
    | .ok b u => .ok () { j with
        shell := { u with wiring := j.shell.wiring }
        pending := if last then .nothing else .text u.captured
        keepGoing := j.keepGoing && b }
    | .error f u => .error f { j with shell := { u with wiring := j.shell.wiring } } := by
  have hbuiltin : j.shell.registry.isBuiltin c.asCat.name = true := by
    simp [Registry.isBuiltin, Command.asCat, hcat]
  have htag : j.shell.registry.resolve c.asCat.name = .ok (.inl .cat) := by
    simp [Registry.resolve, Command.asCat, hcat]
  have hemptied : j.emptied = j := by
    cases j
    cases hp
    rfl
  rw [runStage_of_resolve rfl hbuiltin htag, runBuiltin_apply, hemptied]
  cases invoke _ (.inl .cat) c.asCat (j.builtinShell last) <;> rfl

theorem runStage_asCat (last : Bool) (he : e.handler = Session.runCommand) (hj : j.Between)
    {place : Location} {append : Bool}
    (hopen : c.redirection.openOutFirst j.shell.world.dir j.shell.world.tree =
      .ok (some (.start place append), err) u)
    (hroom : (BlockWriter.start place append).HasRoom (Text.encode text) u) :
    runStage e c.asCat last j = .ok () { j with
      shell := { j.shell.setTree
          ((BlockWriter.start place append).released (Text.encode text) u) with
        given := ""
        captured := "" }
      pending := if last then .nothing else .text "" } := by
  have hinvoke := invoke_cat he (r := c.redirection)
    (s := { j.shell with
      given := text
      captured := ""
      wiring := stageWiring true last j.shell.wiring })
    rfl (hj.unopened .stdout) (hj.unopened .stderr) hopen hroom
  rw [runStage_asCat_eq hcat hp, builtinShell_of_text hp, Command.asCat, hinvoke]
  simp only [Bool.and_true]
  rfl

theorem lagging_asCat_of_error {f : Failure} (hj : j.Between) (hsame : SameEntries u u')
    (hx : c.redirection.openErrFirst j.shell.world.dir j.shell.world.tree = .error f u)
    (hy : c.redirection.openOutFirst j.shell.world.dir j.shell.world.tree = .error f u') :
    ∃ x y, runEmpty e c.redirection j = .error f x ∧ runStage e c.asCat last j = .error f y ∧
      Lagging none (j.files.map (·.2)) x y := by
  obtain ⟨err, hempty, hrun⟩ := exists_runEmpty_error e hx
  have hinvoke : invoke e (.inl .cat) c.asCat (j.builtinShell last) =
      .error f ((j.builtinShell last).setTree u') :=
    redirected_of_openOutFirst (hj.unopened .stdout) hy
  have hcalled : runStage e c.asCat last j = .error f
      { j with shell := { j.shell.setTree u' with given := text, captured := "" } } := by
    rw [runStage_asCat_eq hcat hp, hinvoke, builtinShell_of_text hp]
    rfl
  have hnumbered := hj.numbered
  refine ⟨_, _, hrun, hcalled,
    ⟨?_, ?_, ?_, ?_, ?_, hj.alone, hnumbered.hold _ _, ⟨hnumbered.nodup, hnumbered.below⟩, ?_⟩⟩
  · rw [hold_shell]
    exact behind_setTree hj (lags_none_iff.mpr hsame) text ""
  · simp only [leftText, hold_pending]
  · simp [hp]
  · rw [hold_keepGoing]
  · rw [hold_processes, hj.alone]
  · refine ⟨[], err.toList, map_files_hold .., rfl, by simp, due_of_isEmpty fun w hw => ?_⟩
    exact hempty w (Option.mem_toList.mp hw)

/-- After `cat` has let out its text, a job whose stage passed the text on is at most behind with
what its target holds. -/
theorem lagging_asCat_of_ok {place : Location} {append : Bool}
    (he : e.handler = Session.runCommand) (hj : j.Between) (hsame : SameEntries u u')
    (hx : c.redirection.openErrFirst j.shell.world.dir j.shell.world.tree =
      .ok (some (.start place append), err) u)
    (hy : c.redirection.openOutFirst j.shell.world.dir j.shell.world.tree =
      .ok (some (.start place append), err) u')
    (hroom : (BlockWriter.start place append).HasRoom (Text.encode text) u') :
    ∃ x y, runEmpty e c.redirection j = .ok () x ∧ runStage e c.asCat last j = .ok () y ∧
      Lagging x.lag (j.files.map (·.2)) x y ∧ (last = false → y.pending = x.pending) := by
  have hcalled := runStage_asCat hcat hp last he hj hy hroom
  have hrun := runEmpty_of_openErrFirst e hx
  obtain ⟨_, u₁, hfirst, hx⟩ := bind_eq_ok.mp hx
  obtain ⟨_, u₂, hsecond, hx⟩ := bind_eq_ok.mp hx
  cases hx
  obtain ⟨opened, hin, hopened⟩ := Destination.opening_eq_ok.mp hsecond
  obtain ⟨place', rfl, hplace⟩ := Option.map_eq_some_iff.mp hopened.symm
  obtain ⟨rfl, -⟩ := BlockWriter.mk.inj hplace
  have hroom' : (BlockWriter.start place' append).HasRoom (Text.encode text) u := by
    refine hroom.imp_right fun hfull hf => hfull ?_
    exact (hsame.there _).trans hf
  obtain ⟨w, v, hwrite, hdue, hlags⟩ :=
    BlockWriter.exists_write_lag (exists_get?_of_openIn hin) hroom'
  have htext : (j.hold err j.shell).leftText = text := by
    simp only [leftText, hold_pending, hp]
  have hstill : ∀ pipe pieces, (j.hold err j.shell).pending ≠ .stream pipe pieces := by
    simp [hp]
  have hnumbered := hj.numbered.hold err j.shell
  have hpassed : takeIn e (some (j.hold err j.shell).fresh)
      ((j.hold err j.shell).hold (some (.start place' append)) (j.shell.setTree u)) = .ok ()
        { (j.hold err j.shell).hold (some w) (j.shell.setTree v) with pending := .text "" } := by
    rw [takeIn_hold hnumbered hstill, htext, setTree_tree, hwrite]
    rfl
  have hnumbered' := hnumbered.hold (some w) (j.shell.setTree v)
  refine ⟨_, _, hrun.trans hpassed, hcalled, ⟨?_, ?_, ?_, ?_, ?_, hj.alone,
    ⟨hnumbered'.nodup, hnumbered'.below⟩, ⟨hj.numbered.nodup, hj.numbered.below⟩, ?_⟩, ?_⟩
  · exact behind_setTree hj (hlags u' hsame) "" ""
  · cases last <;> rfl
  · cases last <;> simp
  · exact (hold_keepGoing j err j.shell).symm
  · simpa using hj.alone
  · refine ⟨[], w :: err.toList, ?_, rfl, by simp, hdue _ fun f hf => ?_⟩
    · rw [List.nil_append, List.cons_append, ← map_files_hold j err j.shell]
      rfl
    · cases Option.mem_toList.mp hf
      exact Destination.held_isEmpty hfirst
  · rintro rfl
    rfl

/-- A stage without a name ends as the stage `cat` in its place does, and is at most behind with
what its target holds. -/
theorem lagging_asCat (last : Bool) (he : e.handler = Session.runCommand) (hj : j.Between)
    (hc : c.isEmpty = true) (htarget : c.redirection.stdout.target.isSome = true)
    (hpass : Passable c j) : Agree
      (fun x y => Lagging x.lag (j.files.map (·.2)) x y ∧ (last = false → y.pending = x.pending))
      (Lagging none (j.files.map (·.2))) (runStage e c last j) (runStage e c.asCat last j) := by
  have horder := hpass.order
  have hroom := hpass.room
  rw [leftText, hp] at hroom
  rw [runStage_of_isEmpty hc]
  unfold Redirection.OrderFree at horder
  generalize hx : c.redirection.openErrFirst j.shell.world.dir j.shell.world.tree = v at horder
  generalize hy : c.redirection.openOutFirst j.shell.world.dir j.shell.world.tree = w at horder
  cases horder with
  | error hsame =>
    obtain ⟨x, y, hrun, hcalled, h⟩ := lagging_asCat_of_error hcat hp hj hsame hx hy
    rw [hrun, hcalled]
    exact .error h
  | @ok files u u' hsame =>
    obtain ⟨_, _, hfirst, hrest⟩ := bind_eq_ok.mp hy
    obtain ⟨_, _, -, hrest⟩ := bind_eq_ok.mp hrest
    cases hrest
    have hsome := Destination.isSome_of_opening hfirst
    obtain ⟨place, -, rfl⟩ := Destination.opening_eq_ok.mp hfirst
    cases place with
    | none => simp [htarget] at hsome
    | some place =>
      obtain ⟨x, y, hrun, hcalled, h⟩ :=
        lagging_asCat_of_ok hcat hp he hj hsame hx hy (hroom _ _ _ hy)
      rw [hrun, hcalled]
      exact .ok h

end

end Job

end PipelineShell
