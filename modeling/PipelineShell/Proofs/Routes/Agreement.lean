import PipelineShell.Proofs.Copying.RoundTrips
import PipelineShell.Proofs.Routes.Processes
import PipelineShell.Proofs.Routes.Pumps

/-! The ways that the output of a process can take: to the shell's own output, at once or past a
stage without a name or through `cat`, and to a file in each of these three ways. They come to the
same, but for what a relay does not read. -/

namespace PipelineShell

open Attempt FileTree Shell

/-- The output goes to a file, behind what is there or in its place. -/
def Redirection.onto (path : String) (append : Bool) : Redirection :=
  ⟨⟨some path, append⟩, ⟨Option.none, false⟩⟩

section

variable {τ : Type}

/-- The name leads to a program, and the words can be passed to it. -/
structure Shell.Finds (s : Shell τ) (name : String) (args : List String) (path : String) :
    Prop where
  named : name.isEmpty = false
  foreign : s.registry.isBuiltin name = false
  located : s.locate name = some path
  words : (name :: args).all isPath = true

/-- What a process is launched with that begins a line, with this tree by then. -/
def Shell.launchIn (s : Shell τ) (tree : FileTree) (name : String) (args : List String)
    (path : String) : Launch :=
  ⟨path, name :: args, s.world.env, s.world.dir, tree,
    Text.encode (s.behind.getD s.input), false, false⟩

/-- A process that is launched so writes these bytes to its output, in whatever pieces. -/
def Programs.Write (programs : Programs) (l : Launch) (bytes : ByteArray) : Prop :=
  ∃ output, programs l = .ok output ∧ Relay.joined (output.pieces .stdout) = bytes

/-- The line adds a text to the shell's output, which is in memory. -/
def Pipeline.Shows (e : Engine τ) (p : Pipeline) (s : Shell τ) (text : String) : Prop :=
  ∀ written, s.output = .text written →
    ∃ t, p.execute e s = .ok true t ∧ t.output = .text (written ++ text)

/-- Where the path leads after the line, there are these bytes. -/
def Pipeline.Leaves (e : Engine τ) (p : Pipeline) (s : Shell τ) (path : String)
    (bytes : ByteArray) : Prop :=
  ∃ t, p.execute e s = .ok true t ∧ t.world.read path = .ok bytes

namespace Shell.OpensOnto

variable {s : Shell τ} {path : String} {append : Bool} {place : Location} {u : FileTree}
  (h : s.OpensOnto path append place u)

include h

theorem openDestination {j : Job τ} (hj : j.shell.world = s.world) :
    Job.openDestination ⟨some path, append⟩ j = .ok (some j.fresh)
      (j.hold (some (.start place append)) (j.shell.setTree u)) := by
  have hopen : FileTree.openTarget j.shell.world.dir path append j.shell.world.tree =
      .ok place u := by
    rw [hj]
    exact h.opened
  have hheld : openHeld ⟨some path, append⟩ j.shell =
      .ok (some (.start place append)) (j.shell.setTree u) := by
    have hin : (⟨some path, append⟩ : Destination).openIn j.shell.world.dir j.shell.world.tree =
        .ok (some place) u := bind_of_ok hopen _
    rw [openHeld_apply, hin]
    rfl
  rw [Job.openDestination_apply, hheld]
  rfl

theorem takes {j : Job τ} (hj : j.Numbered) :
    (j.hold (some (.start place append)) (j.shell.setTree u)).Takes j.fresh
      (.start place append) where
  numbered := hj.hold _ _
  file := Job.file?_hold _ _ _
  room := h.not_onFull

end Shell.OpensOnto

end

namespace Job

variable {τ : Type} {e : Engine τ} {s : Shell τ} {name path file : String} {args : List String}
  {output : Output} {append : Bool} {place : Location} {u : FileTree} {c : Command} {j : Job τ}

theorem isBusy_of_files (hj : j.files = []) (path : String) : j.isBusy path = false := by
  unfold isBusy
  rw [hj]
  split <;> rfl

theorem runStage_begin (h : s.Finds name args path) (hw : s.wiring = .own)
    (hrun : e.programs (s.launchIn s.world.tree name args path) = .ok output) (last : Bool) :
    runStage e ⟨name, args, .none⟩ last (start s) = attend last none none
      (e.host.draws (s.launchIn s.world.tree name args path)) output (start s) := by
  have hfor : launchFor e ⟨name, args, .none⟩ last path none none (start s) =
      s.launchIn s.world.tree name args path := by
    cases last <;>
      simp [launchFor, Shell.launchIn, start, inputFor, isFull, hw, Wiring.own, Wiring.stageOutput,
        Outlet.isFull]
  have hlaunch : launching e ⟨name, args, .none⟩ last path none none (start s) = .ok output := by
    rw [launching, isBusy_of_files rfl, hfor]
    exact hrun
  rw [← hfor]
  exact runStage_of_launching h.named h.foreign h.located h.words rfl rfl hlaunch

theorem runStage_begin_onto (h : s.Finds name args path) (hw : s.wiring = .own)
    (hopen : s.OpensOnto file append place u)
    (hidle : ∀ l entry, u.reach s.world.dir path = .ok (l, entry) → l ≠ place)
    (hrun : e.programs (s.launchIn u name args path) = .ok output) :
    runStage e ⟨name, args, .onto file append⟩ true (start s) =
      attend true (some 0) none (e.host.draws (s.launchIn u name args path)) output
        ((start s).hold (some (.start place append)) (s.setTree u)) := by
  have hbusy : ((start s).hold (some (.start place append)) (s.setTree u)).isBusy path = false := by
    unfold isBusy
    split
    · next l entry hreach =>
      have hne : place ≠ l := (hidle l entry hreach).symm
      simp [hold, start, BlockWriter.start, hne]
    · rfl
  have hfull : ∀ o, ((start s).hold (some (.start place append)) (s.setTree u)).isFull (some 0) o =
      false := by
    intro o
    obtain ⟨bytes, x, hget⟩ := hopen.isFile
    have hfile : ((start s).hold (some (.start place append)) (s.setTree u)).file? 0 =
        some (.start place append) := file?_hold (start s) _ _
    rw [isFull, hfile]
    exact decide_eq_false fun hfull => by cases hget.symm.trans hfull
  have herrors : ((start s).hold (some (.start place append)) (s.setTree u)).isFull none
      s.wiring.stderr = false := by
    rw [hw]
    rfl
  have hfor : launchFor e ⟨name, args, .onto file append⟩ true path (some 0) none
      ((start s).hold (some (.start place append)) (s.setTree u)) =
        s.launchIn u name args path := by
    rw [launchFor, hold_shell, hfull]
    dsimp only [Shell.setTree] at herrors ⊢
    rw [herrors]
    rfl
  have hlaunch : launching e ⟨name, args, .onto file append⟩ true path (some 0) none
      ((start s).hold (some (.start place append)) (s.setTree u)) = .ok output := by
    rw [launching, hbusy, hfor]
    exact hrun
  rw [← hfor]
  exact runStage_of_launching h.named h.foreign h.located h.words
    (hopen.openDestination (j := start s) rfl) rfl hlaunch

/-- A stage without a name lets what a process writes pass a relay to its target. -/
theorem exists_relay (hj : j.Numbered) (hheld : j.HoldsNothing) (hw : j.shell.world = s.world)
    (hopen : s.OpensOnto file append place u) {pipe : Nat} {pieces : List ByteArray}
    (hp : j.pending = .stream pipe pieces) (last : Bool) :
    ∃ j', runStage e ⟨"", [], .onto file append⟩ last j = .ok () j' ∧ j'.pending = .text "" ∧
      j'.shell = (j.shell.setTree u).setTree ((BlockWriter.start place append).released
        (Relay.joined (Relay.copy e.host e.chunkSize pieces)) u) ∧
      j'.HoldsNothing ∧ j'.keepGoing = j.keepGoing ∧ j'.unread = j.unread := by
  have htakes := hopen.takes hj
  generalize hstart : BlockWriter.start place append = w at htakes ⊢
  obtain ⟨i, hclaim, hi, hfiles, hshell, hgo, hunread⟩ : ∃ i,
      (claim pipe .relay >>= fun _ => startHelper) (j.hold (some w) (j.shell.setTree u)) =
        .ok () i ∧
      i.Takes j.fresh w ∧ i.files = (j.hold (some w) (j.shell.setTree u)).files ∧
      i.shell = j.shell.setTree u ∧ i.keepGoing = j.keepGoing ∧ i.unread = j.unread := by
    refine ⟨_, rfl, ⟨⟨htakes.numbered.nodup, fun f hf => ?_⟩, htakes.file, htakes.room⟩, rfl, rfl,
      rfl, rfl⟩
    exact Nat.lt_succ_of_lt (htakes.numbered.below f hf)
  have hput := hi.putAll (Relay.copy e.host e.chunkSize pieces)
  obtain ⟨k, hclose, hk, hshell', hfiles', hgo', hunread'⟩ : ∃ k,
      closePipe pipe (i.release j.fresh w (Relay.joined (Relay.copy e.host e.chunkSize pieces))) =
        .ok () k ∧ k.pending = i.pending ∧
      k.shell = (i.release j.fresh w
        (Relay.joined (Relay.copy e.host e.chunkSize pieces))).shell ∧
      k.files = (i.release j.fresh w
        (Relay.joined (Relay.copy e.host e.chunkSize pieces))).files ∧
      k.keepGoing = j.keepGoing ∧ k.unread = j.unread := ⟨_, rfl, rfl, rfl, rfl, hgo, hunread⟩
  have hpour : pour e j.fresh (.stream pipe pieces) (j.hold (some w) (j.shell.setTree u)) =
      .ok () k := by
    rw [pour, ← bind_assoc, bind_of_ok hclaim, relayToFile, bind_of_ok hput]
    exact hclose
  have hheld' : i.HoldsNothing :=
    (hstart ▸ hheld.hold_start place append (j.shell.setTree u)).of_files hfiles
  refine ⟨{ k with pending := .text "" }, ?_, rfl, ?_, (hheld'.release hi _).of_files hfiles', hgo',
    hunread'⟩
  · have herr : openDestination (Redirection.onto file append).stderr j = .ok none j := rfl
    have hout := hopen.openDestination hw
    rw [hstart] at hout
    rw [runStage_of_isEmpty rfl, runEmpty_eq, bind_of_ok herr]
    refine (bind_of_ok hout _).trans ?_
    rw [takeIn, bind_of_ok (get_apply _), hold_pending, hp, bind_of_ok hpour]
    rfl
  · refine hshell'.trans ?_
    rw [release, setFile, hshell]
    simp [hshell, setTree, Shell.setTree]

end Job

namespace Builtin

variable {v : Shell Builtin}

theorem invoke_cat (programs : Programs) (chunkSize : Int) (host : Host)
    (hout : v.wiring.stdout = .output) :
    ∃ t, invoke ⟨Builtin.run, programs, chunkSize, host⟩ .cat ⟨"cat", [], .none⟩ v =
      .ok Bool.true t ∧ t.output = v.output.write v.toRead := by
  have hfinal := final_readAll v
  have houtput : (readAll.final v).wiring.stdout = .output ∧
      (readAll.final v).output = v.output := by
    cases hin : v.wiring.stdin <;> (rw [hfinal, hin]; exact ⟨hout, rfl⟩)
  have hwrite : Shell.write v.toRead (readAll.final v) = .ok ()
      { readAll.final v with output := v.output.write v.toRead } := by
    rw [Shell.write, bind_of_ok (get_apply _), houtput.1, ← houtput.2]
    rfl
  have hrun : Builtin.run .cat [] v = .ok Bool.true
      { readAll.final v with output := v.output.write v.toRead } := by
    have hcat : (cat.run [] : Shell.Step Builtin Bool) =
        readAll >>= fun text => Shell.write text >>= fun _ => pure Bool.true := rfl
    rw [hcat, bind_of_ok (readAll_apply v), bind_of_ok hwrite]
    rfl
  have hcalled : called ⟨Builtin.run, programs, chunkSize, host⟩ .cat ⟨"cat", [], .none⟩ v =
      .ok Bool.true { readAll.final v with output := v.output.write v.toRead } := by
    refine ensure_eq_ok.mpr ⟨_, handle_of_ok hrun _, ?_⟩
    rw [bind_of_ok (get_apply _)]
    dsimp only
    rw [houtput.1]
    rfl
  exact ⟨_, redirected_eq_ok.mpr ⟨v, _, rfl, hcalled, rfl⟩, rfl⟩

end Builtin

theorem Text.encode_decode_eq_iff {bytes : ByteArray} :
    encode (decode bytes) = bytes ↔ ∃ text, bytes = encode text := by
  refine ⟨fun h => ⟨_, h.symm⟩, ?_⟩
  rintro ⟨text, rfl⟩
  rw [decode_encode]

namespace Job

variable {τ : Type} {e : Engine τ} {s : Shell τ} {name path : String} {args : List String}
  {output : Output} {c d : Command} {j j' : Job τ}

/-- The process has run, and the next stage has before it what it wrote. -/
structure Begun (s : Shell τ) (output : Output) (j : Job τ) : Prop where
  pending : ∃ pipe, j.pending = .stream pipe (output.pieces .stdout)
  shell : ∃ amount, j.shell = s.attended amount output
  holds : j.HoldsNothing
  unread : j.unread = []
  keepGoing : j.keepGoing = true
  numbered : j.Numbered

theorem exists_begun (h : s.Finds name args path) (hw : s.wiring = .own)
    (hrun : e.programs (s.launchIn s.world.tree name args path) = .ok output) : ∃ j,
      runStage e ⟨name, args, .none⟩ false (start s) = .ok () j ∧ Begun s output j := by
  obtain ⟨j, pipe, hattend, haside⟩ := exists_attend_passing (j := start s) rfl hw
    (e.host.draws (s.launchIn s.world.tree name args path)) output
  have hstage := (runStage_begin h hw hrun false).trans hattend
  exact ⟨j, hstage, ⟨pipe, haside.pending⟩, ⟨_, haside.shell⟩,
    (holdsNothing_start s).of_files haside.files, haside.unread, haside.keepGoing,
    ((steady_runStage _ _).ok hstage).numbered (.start s)⟩

namespace Begun

theorem world (h : Begun s output j) : j.shell.world = s.world := by
  obtain ⟨amount, hshell⟩ := h.shell
  rw [hshell, world_attended]

theorem wiring (h : Begun s output j) : j.shell.wiring = s.wiring := by
  obtain ⟨amount, hshell⟩ := h.shell
  rw [hshell, wiring_attended]

theorem registry (h : Begun s output j) : j.shell.registry = s.registry := by
  obtain ⟨amount, hshell⟩ := h.shell
  rw [hshell, registry_attended]

theorem ownOutput (h : Begun s output j) : j.shell.output = s.output := by
  obtain ⟨amount, hshell⟩ := h.shell
  rw [hshell, output_attended]

end Begun

theorem execute_pair (hw : s.wiring = .own) (hc : runStage e c false (start s) = .ok () j)
    (hd : runStage e d true j = .ok () j') (hheld : j'.HoldsNothing) (hunread : j'.unread = []) :
    (⟨c, [d]⟩ : Pipeline).execute e s =
      .ok j'.keepGoing { j'.shell with output := j'.shell.output.write j'.leftText } :=
  execute_of_holdsNothing rfl ((bind_of_ok hc _).trans (bind_of_ok hd _)) hw hheld hunread

end Job

namespace Pipeline

open Job

variable {programs : Programs} {chunkSize : Int} {host : Host} {s : Shell Builtin}
  {name path file : String}
  {args : List String} {output : Output} {append : Bool} {place : Location} {u : FileTree}

section

variable {τ : Type} {e : Engine τ} {s : Shell τ}

theorem shows_process (h : s.Finds name args path) (hw : s.wiring = .own)
    (hrun : e.programs (s.launchIn s.world.tree name args path) = .ok output) :
    Shows e ⟨⟨name, args, .none⟩, []⟩ s (Text.decode (Relay.joined (output.pieces .stdout))) := by
  intro written hwritten
  obtain ⟨j, hattend, haside⟩ := exists_attend_last (j := start s) rfl hw
    (e.host.draws (s.launchIn s.world.tree name args path)) output
  have hstages : runStages e [⟨name, args, .none⟩] (start s) = .ok () j :=
    bind_of_ok ((runStage_begin h hw hrun true).trans hattend) _
  have hheld := (holdsNothing_start s).of_files haside.files
  have hgo : j.keepGoing = true := haside.keepGoing
  have hexecute := execute_of_holdsNothing (p := ⟨⟨name, args, .none⟩, []⟩) h.named hstages hw hheld
    haside.unread
  rw [hgo] at hexecute
  refine ⟨_, hexecute, ?_⟩
  have hp : j.pending = .nothing := haside.pending
  have hshell : j.shell.output = .text (written ++ Text.decodePieces (output.pieces .stdout)) := by
    rw [haside.shell, received, output_attended]
    exact congrArg (Console.receive _) hwritten
  simp only [leftText, hp, hshell, Console.write, String.append_empty, Text.decodePieces_eq]

theorem shows_blank (h : s.Finds name args path) (hw : s.wiring = .own)
    (hrun : e.programs (s.launchIn s.world.tree name args path) = .ok output) :
    Shows e ⟨⟨name, args, .none⟩, [⟨"", [], .none⟩]⟩ s
      (Text.decode (Relay.joined (output.pieces .stdout))) := by
  intro written hwritten
  obtain ⟨j, hstage, hj⟩ := exists_begun h hw hrun
  obtain ⟨pipe, hp⟩ := hj.pending
  have hexecute := execute_pair hw hstage (runStage_of_isBlank (c := ⟨"", [], .none⟩) rfl true j)
    hj.holds hj.unread
  rw [hj.keepGoing] at hexecute
  refine ⟨_, hexecute, ?_⟩
  have houtput : j.shell.output = .text written := hj.ownOutput.trans hwritten
  simp only [leftText, hp, houtput, Console.write, Text.decodePieces_eq]

theorem leaves_relayed (h : s.Finds name args path) (hw : s.wiring = .own)
    (hrun : e.programs (s.launchIn s.world.tree name args path) = .ok output)
    (hopen : s.OpensOnto file append place u) :
    Leaves e ⟨⟨name, args, .none⟩, [⟨"", [], .onto file append⟩]⟩ s file (s.kept append place ++
      Relay.joined (Relay.copy e.host e.chunkSize (output.pieces .stdout))) := by
  obtain ⟨j, hstage, hj⟩ := exists_begun h hw hrun
  obtain ⟨pipe, hp⟩ := hj.pending
  obtain ⟨j', hrelay, -, hshell, hheld, hgo, hunread⟩ :=
    exists_relay (e := e) hj.numbered hj.holds hj.world hopen hp true
  have hexecute := execute_pair hw hstage hrelay hheld (hunread.trans hj.unread)
  rw [hgo, hj.keepGoing] at hexecute
  have hdir : j.shell.world.dir = s.world.dir := by rw [hj.world]
  refine ⟨_, hexecute, hopen.read ?_ ?_⟩
  · rw [hshell]
    exact hdir
  · rw [hshell]
    rfl

theorem leaves_process (h : s.Finds name args path) (hw : s.wiring = .own)
    (hopen : s.OpensOnto file append place u)
    (hidle : ∀ l entry, u.reach s.world.dir path = .ok (l, entry) → l ≠ place)
    (hrun : e.programs (s.launchIn u name args path) = .ok output) :
    Leaves e ⟨⟨name, args, .onto file append⟩, []⟩ s file
      (s.kept append place ++ Relay.joined (output.pieces .stdout)) := by
  have htakes := hopen.takes (.start s)
  obtain ⟨j, hattend, haside⟩ := exists_attend_into
    (j := (start s).hold (some (.start place append)) (s.setTree u)) rfl hw htakes
    (e.host.draws (s.launchIn u name args path)) output
  have hstages : runStages e [⟨name, args, .onto file append⟩] (start s) = .ok () j :=
    bind_of_ok ((runStage_begin_onto h hw hopen hidle hrun).trans hattend) _
  have hheld := ((holdsNothing_start s).hold_start place append (s.setTree u)).release htakes
    (Relay.joined (output.pieces .stdout))
  have hexecute := execute_of_holdsNothing (p := ⟨⟨name, args, .onto file append⟩, []⟩) h.named
    hstages hw (hheld.of_files haside.files) haside.unread
  have hgo : j.keepGoing = true := haside.keepGoing
  rw [hgo] at hexecute
  have hworld : j.shell.world = { s.world with
      tree := (BlockWriter.start place append).released
        (Relay.joined (output.pieces .stdout)) u } := by
    rw [haside.shell]
    dsimp only [Shell.setTree]
    rw [world_attended]
    rfl
  refine ⟨_, hexecute, hopen.read ?_ ?_⟩
  · dsimp only
    rw [hworld]
  · dsimp only
    rw [hworld]

end

theorem toRead_of_begun {j : Job Builtin} (hw : s.wiring = .own) (hj : Begun s output j) :
    (j.builtinShell true).toRead = Text.decode (Relay.joined (output.pieces .stdout)) ∧
    (j.builtinShell true).wiring = ⟨.given, .output, .errors⟩ := by
  obtain ⟨pipe, hp⟩ := hj.pending
  have hwiring := hj.wiring.trans hw
  simp [builtinShell, drained, hp, hwiring, stageWiring, toRead, Wiring.own, Wiring.stageOutput]

theorem runStage_cat {j : Job Builtin} (hj : Begun s output j)
    (hcat : s.registry.resolve "cat" = .ok .cat) (r : Redirection) {t : Shell Builtin}
    (hinvoke : invoke ⟨Builtin.run, programs, chunkSize, host⟩ .cat ⟨"cat", [], r⟩
      (j.builtinShell true) = .ok true t) :
    runStage ⟨Builtin.run, programs, chunkSize, host⟩ ⟨"cat", [], r⟩ true j = .ok () { j.emptied with
      shell := { t with wiring := j.shell.wiring }
      pending := .nothing } := by
  have htag : j.shell.registry.resolve "cat" = .ok .cat := by rw [hj.registry, hcat]
  have hb := Registry.isBuiltin_of_resolve (by rfl) htag
  have hgo : j.keepGoing = (j.keepGoing && true) := (Bool.and_true _).symm
  rw [runStage_of_resolve (c := ⟨"cat", [], r⟩) rfl hb htag, runBuiltin_apply, hinvoke]
  simp only [if_true, ← hgo]
  rfl

theorem shows_cat (h : s.Finds name args path) (hw : s.wiring = .own)
    (hcat : s.registry.resolve "cat" = .ok .cat)
    (hrun : programs (s.launchIn s.world.tree name args path) = .ok output) :
    Shows ⟨Builtin.run, programs, chunkSize, host⟩ ⟨⟨name, args, .none⟩, [⟨"cat", [], .none⟩]⟩ s
      (Text.decode (Relay.joined (output.pieces .stdout))) := by
  intro written hwritten
  obtain ⟨j, hstage, hj⟩ := exists_begun (e := ⟨Builtin.run, programs, chunkSize, host⟩) h hw hrun
  obtain ⟨hread, hwiring⟩ := toRead_of_begun hw hj
  obtain ⟨t, hinvoke, houtput⟩ :=
    Builtin.invoke_cat programs chunkSize host (congrArg Wiring.stdout hwiring)
  have hexecute := execute_pair hw hstage (runStage_cat hj hcat .none hinvoke)
    (hj.holds.of_files rfl) hj.unread
  have hgo : j.emptied.keepGoing = true := hj.keepGoing
  rw [hgo] at hexecute
  refine ⟨_, hexecute, ?_⟩
  have hbefore : (j.builtinShell true).output = .text written := by
    have hshell : (j.builtinShell true).output = j.shell.output := rfl
    rw [hshell, hj.ownOutput, hwritten]
  simp only [leftText, houtput, hbefore, hread, Console.write, String.append_empty]

theorem leaves_cat (h : s.Finds name args path) (hw : s.wiring = .own)
    (hcat : s.registry.resolve "cat" = .ok .cat)
    (hrun : programs (s.launchIn s.world.tree name args path) = .ok output)
    (hopen : s.OpensOnto file false place u) :
    Leaves ⟨Builtin.run, programs, chunkSize, host⟩
      ⟨⟨name, args, .none⟩, [⟨"cat", [], .onto file false⟩]⟩ s file
      (Text.encode (Text.decode (Relay.joined (output.pieces .stdout)))) := by
  obtain ⟨j, hstage, hj⟩ := exists_begun (e := ⟨Builtin.run, programs, chunkSize, host⟩) h hw hrun
  obtain ⟨hread, hwiring⟩ := toRead_of_begun hw hj
  have hworld : (j.builtinShell true).world = s.world := by
    have hshell : (j.builtinShell true).world = j.shell.world := rfl
    rw [hshell, hj.world]
  have hfills : Fills (.start place false) u "" ((j.builtinShell true).into place u) :=
    fills_into (congrArg Wiring.stderr hwiring)
  have hinto : ((j.builtinShell true).into place u).toRead = (j.builtinShell true).toRead := rfl
  obtain ⟨v, hrun, hdir, hv⟩ := Builtin.runCat_fills_toRead hopen.not_onFull hfills
  have hopened : FileTree.openTarget (j.builtinShell true).world.dir file false
      (j.builtinShell true).world.tree = .ok place u := by
    rw [hworld]
    exact hopen.opened
  have hcall : ((⟨Builtin.run, programs, chunkSize, host⟩ : Engine Builtin).handler .cat []).handle
      (reportAs "cat") ((j.builtinShell true).into place u) = .ok true v := handle_of_ok hrun _
  have hinvoke := invoke_into hopened hopen.not_onFull hcall hv
  rw [hinto, hread] at hinvoke
  have hexecute := execute_pair hw hstage (runStage_cat hj hcat (.onto file false) hinvoke)
    (hj.holds.of_files rfl) hj.unread
  have hgo : j.emptied.keepGoing = true := hj.keepGoing
  rw [hgo] at hexecute
  have hread := hopen.read (w := { v.world with
    tree := (BlockWriter.start place false).released
      (Text.encode (Text.decode (Relay.joined (output.pieces .stdout)))) u })
    (hworld ▸ hdir) rfl
  rw [kept_false, ByteArray.empty_append] at hread
  exact ⟨_, hexecute, hread⟩

end Pipeline

/-- All ways that these bytes of a process can take come to the same text or to the same bytes, but
for what a relay does not read. -/
structure RoutesAgree (e : Engine Builtin) (s : Shell Builtin) (name path : String)
    (args : List String) (bytes : ByteArray) : Prop where
  alone : Pipeline.Shows e ⟨⟨name, args, .none⟩, []⟩ s (Text.decode bytes)
  blank : Pipeline.Shows e ⟨⟨name, args, .none⟩, [⟨"", [], .none⟩]⟩ s (Text.decode bytes)
  cat : Pipeline.Shows e ⟨⟨name, args, .none⟩, [⟨"cat", [], .none⟩]⟩ s (Text.decode bytes)
  /-- A pump may get the bytes in any pieces, and cut the text into any lines. -/
  pumped : ∀ (cut : String → List String × String) (pieces : List ByteArray) (written : String),
    (∀ text, String.join (cut text).1 ++ (cut text).2 = text) → Relay.joined pieces = bytes →
    (Console.text written).pump cut .start pieces = .text (written ++ Text.decode bytes)
  /-- Nothing is replaced but what encodes no text, and a carriage return stays where it is. -/
  decoded : (Text.encode (Text.decode bytes) = bytes ↔ ∃ text, bytes = Text.encode text) ∧
    ∀ before behind, bytes = before ++ Text.encode "\r" ++ behind →
      Text.decode bytes = Text.decode before ++ "\r" ++ Text.decode behind
  onto : ∀ (file : String) (append : Bool) (place : Location) (u : FileTree),
    s.OpensOnto file append place u →
    (∀ l entry, u.reach s.world.dir path = .ok (l, entry) → l ≠ place) →
    e.programs.Write (s.launchIn u name args path) bytes →
    Pipeline.Leaves e ⟨⟨name, args, .onto file append⟩, []⟩ s file (s.kept append place ++ bytes)
  /-- Nothing passes a relay whose reads are not granted. -/
  blankOnto : ∀ (file : String) (append : Bool) (place : Location) (u : FileTree),
    s.OpensOnto file append place u →
    Pipeline.Leaves e ⟨⟨name, args, .none⟩, [⟨"", [], .onto file append⟩]⟩ s file
      (s.kept append place ++ if Relay.Granted e.host e.chunkSize then bytes else .empty)
  catInto : ∀ (file : String) (place : Location) (u : FileTree), s.OpensOnto file false place u →
    Pipeline.Leaves e ⟨⟨name, args, .none⟩, [⟨"cat", [], .onto file false⟩]⟩ s file
      (Text.encode (Text.decode bytes))

/-- Whatever bytes a process writes and in whatever pieces, its output comes to the same in all
ways, whatever the chunk size. -/
theorem Builtin.routes_agree {programs : Programs} {chunkSize : Int} {host : Host}
    {s : Shell Builtin} {name path : String} {args : List String} {bytes : ByteArray}
    (hw : s.wiring = .own) (hcat : s.registry.resolve "cat" = .ok .cat)
    (hfinds : s.Finds name args path)
    (hwrite : programs.Write (s.launchIn s.world.tree name args path) bytes) :
    RoutesAgree ⟨Builtin.run, programs, chunkSize, host⟩ s name path args bytes := by
  obtain ⟨output, hrun, rfl⟩ := hwrite
  refine ⟨Pipeline.shows_process hfinds hw hrun, Pipeline.shows_blank hfinds hw hrun,
    Pipeline.shows_cat hfinds hw hcat hrun, fun cut pieces written hcut hpieces => ?_,
    ⟨Text.encode_decode_eq_iff, fun before behind hbytes => ?_⟩,
    fun file append place u hopen hidle hwrite => ?_, fun file append place u hopen => ?_,
    fun file place u hopen => Pipeline.leaves_cat hfinds hw hcat hrun hopen⟩
  · rw [Console.pump_text hcut, Console.receive, Text.decodePieces_eq, hpieces]
  · rw [hbytes]
    exact Text.decode_ascii (b := 13) (by decide) before behind
  · obtain ⟨output', hrun', hbytes⟩ := hwrite
    rw [← hbytes]
    exact Pipeline.leaves_process hfinds hw hopen hidle hrun'
  · have hleaves := Pipeline.leaves_relayed (e := ⟨Builtin.run, programs, chunkSize, host⟩)
      hfinds hw hrun hopen
    rwa [Relay.joined_copy_eq] at hleaves

namespace Routes

def trialPrograms : Programs :=
  fun _ => .ok [(.stdout, ⟨#[0xff, 0x0d, 0xc3]⟩), (.stderr, ⟨#[0x21]⟩), (.stdout, ⟨#[0xa9]⟩)]

def trialShell : Shell Builtin :=
  .start ⟨⟨[(["e"], .file .empty true), (["g"], .file (Text.encode "a") false)], 4096⟩, [], [],
    ⟨2024, 1, 1, 0, 0, 0, 0⟩, [], ⟨none, []⟩⟩ ⟨[("cat", .cat)]⟩ none (.empty 0) "" (.text "")

/-- A host that has no memory for any read. -/
def trialHost : Host :=
  { Host.ample with grants := fun _ => false }

theorem finds_trialShell : trialShell.Finds "/e" [] "/e" :=
  ⟨by decide, by decide, by decide +kernel, by decide⟩

theorem opensOnto_trialShell :
    trialShell.OpensOnto "g" true ["g"] trialShell.world.tree :=
  ⟨by decide +kernel, Text.encode "a", false, by decide⟩

theorem write_trialPrograms (l : Launch) :
    trialPrograms.Write l ⟨#[0xff, 0x0d, 0xc3, 0xa9]⟩ :=
  ⟨_, rfl, by decide⟩

/-- A file that is appended to gets all of the bytes in one of these lines, and none in the other,
where no read is granted. -/
theorem routes_agree_trial :
    Pipeline.Shows ⟨Builtin.run, trialPrograms, 1, .ample⟩
      ⟨⟨"/e", [], .none⟩, [⟨"cat", [], .none⟩]⟩ trialShell "\ufffd\ré" ∧
    Pipeline.Leaves ⟨Builtin.run, trialPrograms, 1, .ample⟩
      ⟨⟨"/e", [], .none⟩, [⟨"", [], .onto "g" true⟩]⟩ trialShell "g"
      ⟨#[0x61, 0xff, 0x0d, 0xc3, 0xa9]⟩ ∧
    Pipeline.Leaves ⟨Builtin.run, trialPrograms, 1, trialHost⟩
      ⟨⟨"/e", [], .none⟩, [⟨"", [], .onto "g" true⟩]⟩ trialShell "g" ⟨#[0x61]⟩ := by
  have hagree : ∀ host, RoutesAgree ⟨Builtin.run, trialPrograms, 1, host⟩ trialShell "/e" "/e" []
      ⟨#[0xff, 0x0d, 0xc3, 0xa9]⟩ := fun host =>
    Builtin.routes_agree rfl (by decide) finds_trialShell (write_trialPrograms _)
  have hdecode : Text.decode ⟨#[0xff, 0x0d, 0xc3, 0xa9]⟩ = "\ufffd\ré" := by decide
  have hcat := (hagree .ample).cat
  have hall := (hagree .ample).blankOnto "g" true ["g"] _ opensOnto_trialShell
  have hnone := (hagree trialHost).blankOnto "g" true ["g"] _ opensOnto_trialShell
  rw [hdecode] at hcat
  exact ⟨hcat, hall, hnone⟩

end Routes

end PipelineShell
