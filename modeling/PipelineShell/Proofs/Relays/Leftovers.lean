import PipelineShell.Proofs.Relays.Alike
import PipelineShell.Proofs.Routes.Agreement

/-! What a relay leaves in a pipe when it finds no room for what it has read: all but one read. The
process that wrote it waits for ever if that is more than a pipe holds. -/

namespace PipelineShell

open Relay

namespace Relay

variable {host : Host} {size : Int} {piece : ByteArray}

theorem readsFrom_append (n : Nat) (piece : ByteArray) (i : Nat) (done before : List ByteArray) :
    readsFrom n piece i (done ++ before) = readsFrom n piece i done ++ before := by
  fun_induction readsFrom n piece i done with
  | case1 i done hend => rw [readsFrom, dif_pos hend]
  | case2 i done hmore ih =>
    rw [readsFrom, dif_neg hmore, ← List.cons_append]
    exact ih

theorem exists_copy_singleton (h : Granted host size) (hpiece : piece.isEmpty = false) :
    ∃ reads, copy host size [piece] = piece.extract 0 (readSize host size) :: reads := by
  have hzero : ¬(readSize host size = 0 ∨ piece.size ≤ 0) := by
    have hread : 0 < readSize host size := h
    simp only [ByteArray.isEmpty, beq_eq_false_iff_ne] at hpiece
    omega
  have hsplit := readsFrom_append (readSize host size) piece (readSize host size) []
    [piece.extract 0 (readSize host size)]
  refine ⟨(readsFrom (readSize host size) piece (readSize host size) []).reverse, ?_⟩
  rw [copy, List.flatMap_singleton, readsFrom, dif_neg hzero, Nat.zero_add, ← List.nil_append [_],
    hsplit, List.reverse_append]
  rfl

theorem size_joined_of_copy (h : Granted host size) (hpiece : piece.isEmpty = false)
    {read : ByteArray} {reads : List ByteArray} (hcopy : copy host size [piece] = read :: reads) :
    (joined reads).size = piece.size - readSize host size := by
  obtain ⟨reads', hcopy'⟩ := exists_copy_singleton h hpiece
  cases hcopy.symm.trans hcopy'
  have hjoined := congrArg ByteArray.size (joined_copy h [piece])
  rw [hcopy, joined_cons_eq, joined_singleton, ByteArray.size_append, ByteArray.size_extract]
    at hjoined
  omega

end Relay

namespace Job

open BlockWriter

variable {τ : Type} {e : Engine τ} {n : Nat} {j : Job τ} {w : BlockWriter}

theorem relayToFile_of_onFull (hfile : j.file? n = some w) (hfull : w.OnFull j.shell.world.tree)
    (h : Granted e.host e.chunkSize) {piece : ByteArray} (hpiece : piece.isEmpty = false)
    (pipe : Nat) : relayToFile e n pipe [piece] j =
      forsake (piece.size - readSize e.host e.chunkSize) pipe
        (j.setFile n w j.shell.world.tree) := by
  obtain ⟨reads, hcopy⟩ := exists_copy_singleton h hpiece
  have hread := isEmpty_of_mem_copy h (hcopy ▸ List.mem_cons_self ..)
  have hput := putAll_of_onFull hfile hfull hread reads
  rw [← hcopy, size_joined_of_copy h hpiece hcopy] at hput
  exact Attempt.bind_of_ok hput _

theorem exists_relay_onFull {path : String} {append : Bool} {place : Location} {u : FileTree}
    (hopen : FileTree.openTarget j.shell.world.dir path append j.shell.world.tree = .ok place u)
    (hfull : u.get? place = some (.device .full)) (h : Granted e.host e.chunkSize)
    {pipe : Nat} {piece : ByteArray} (hp : j.pending = .stream pipe [piece])
    (hpiece : piece.isEmpty = false) (last : Bool) : ∃ j',
      runStage e ⟨"", [], .onto path append⟩ last j = .ok () j' ∧ j'.processes = j.processes ∧
        j'.unread = (pipe, piece.size - readSize e.host e.chunkSize) :: j.unread := by
  have hheld : Shell.openHeld ⟨some path, append⟩ j.shell =
      .ok (some (.start place append)) (j.shell.setTree u) := by
    have hin : (⟨some path, append⟩ : Destination).openIn j.shell.world.dir j.shell.world.tree =
        .ok (some place) u := Attempt.bind_of_ok hopen _
    rw [Shell.openHeld_apply, hin]
    rfl
  have hout : openDestination ⟨some path, append⟩ j =
      .ok (some j.fresh) (j.hold (some (.start place append)) (j.shell.setTree u)) := by
    rw [openDestination_apply, hheld]
    rfl
  obtain ⟨i, hclaim, hfile, hi, hprocesses, hunread⟩ : ∃ i,
      (claim pipe .relay >>= fun _ => startHelper)
        (j.hold (some (.start place append)) (j.shell.setTree u)) = .ok () i ∧
      i.file? j.fresh = some (.start place append) ∧ i.shell.world.tree = u ∧
      i.processes = j.processes ∧ i.unread = j.unread :=
    ⟨_, rfl, file?_hold j _ (j.shell.setTree u), rfl, rfl, rfl⟩
  obtain ⟨k, hforsake, hk, hk'⟩ : ∃ k,
      forsake (piece.size - readSize e.host e.chunkSize) pipe
        (i.setFile j.fresh (.start place append) i.shell.world.tree) = .ok () k ∧
      k.processes = i.processes ∧
      k.unread = (pipe, piece.size - readSize e.host e.chunkSize) :: i.unread := ⟨_, rfl, rfl, rfl⟩
  have hpour : pour e j.fresh (.stream pipe [piece])
      (j.hold (some (.start place append)) (j.shell.setTree u)) = .ok () k := by
    rw [pour, ← bind_assoc, Attempt.bind_of_ok hclaim,
      relayToFile_of_onFull hfile (by rw [hi]; exact hfull) h hpiece, hforsake]
  refine ⟨{ k with pending := .text "" }, ?_, hk.trans hprocesses, by rw [← hunread, ← hk']⟩
  have herr : openDestination (Redirection.onto path append).stderr j = .ok none j := rfl
  rw [runStage_of_isEmpty rfl, runEmpty_eq, Attempt.bind_of_ok herr]
  refine (Attempt.bind_of_ok hout _).trans ?_
  rw [takeIn, Attempt.bind_of_ok (Attempt.get_apply _), hold_pending, hp,
    Attempt.bind_of_ok hpour]
  rfl

end Job

namespace Relay

/-- A shell with a program, and with a device that has no room. -/
def fullShell : Shell Builtin :=
  .start ⟨⟨[(["e"], .file .empty true), (["full"], .device .full)], 4096⟩, [], [],
    ⟨2024, 1, 1, 0, 0, 0, 0⟩, [], ⟨none, []⟩⟩ ⟨[]⟩ none (.empty 0) "" (.text "")

/-- Its processes write so many bytes at once. -/
def fullEngine (host : Host) (amount : Nat) : Engine Builtin :=
  ⟨Builtin.run, fun _ => .ok [(.stdout, ⟨Array.replicate amount 0⟩)], 0, host⟩

def fullPipeline : Pipeline :=
  ⟨⟨"/e", [], .none⟩, [⟨"", [], .onto "full" false⟩]⟩

theorem finds_fullShell : fullShell.Finds "/e" [] "/e" :=
  ⟨by decide, by decide, by decide +kernel, by decide⟩

theorem exists_runStages_full {amount : Nat} (h : Granted host size) (hamount : 0 < amount) : ∃ j,
    Job.runStages ((fullEngine host amount).moving size) fullPipeline.stages
      (Job.start fullShell) = .ok () j ∧
    j.processes = [⟨3, [0, 1, 2]⟩] ∧ j.unread = [(1, amount - readSize host size)] := by
  have hpiece : (⟨Array.replicate amount 0⟩ : ByteArray).isEmpty = false := by
    simp only [ByteArray.isEmpty, ByteArray.size, Array.size_replicate, beq_eq_false_iff_ne]
    omega
  have hfirst := Job.runStage_begin (e := (fullEngine host amount).moving size) finds_fullShell rfl
    rfl false
  generalize ((fullEngine host amount).moving size).host.draws
    (fullShell.launchIn fullShell.world.tree "/e" [] "/e") = draws at hfirst
  obtain ⟨j, hattend, hpending, hprocesses, hunread, hworld⟩ : ∃ j,
      Job.attend false none none draws [(.stdout, ⟨Array.replicate amount 0⟩)]
        (Job.start fullShell) = .ok () j ∧
      j.pending = .stream 1 [⟨Array.replicate amount 0⟩] ∧ j.processes = [⟨3, [0, 1, 2]⟩] ∧
      j.unread = [] ∧ j.shell.world = fullShell.world := ⟨_, rfl, rfl, rfl, rfl, rfl⟩
  have hopen : FileTree.openTarget j.shell.world.dir "full" false j.shell.world.tree =
      .ok ["full"] fullShell.world.tree := by
    rw [hworld]
    decide +kernel
  obtain ⟨k, hsecond, hk, hk'⟩ := Job.exists_relay_onFull
    (e := (fullEngine host amount).moving size) hopen (by decide) h hpending hpiece true
  refine ⟨k, (Attempt.bind_of_ok (hfirst.trans hattend) _).trans (Attempt.bind_of_ok hsecond _),
    hk.trans hprocesses, ?_⟩
  rw [hk', hunread, ByteArray.size, Array.size_replicate]
  rfl

theorem neverEnds_full_iff {amount : Nat} (h : Granted host size) (hamount : 0 < amount) :
    fullPipeline.NeverEnds ((fullEngine host amount).moving size) fullShell ↔
      host.pipeRoom < amount - readSize host size := by
  obtain ⟨j, hrun, hprocesses, hunread⟩ := exists_runStages_full h hamount
  have haccounted := Job.accounts_runStages (e := (fullEngine host amount).moving size)
    fullPipeline.stages [] (Job.start fullShell) (Job.accounted_start fullShell)
  rw [Attempt.final_of_ok hrun] at haccounted
  have hidle : fullPipeline.isIdle = false := rfl
  have hroams : ((fullEngine host amount).moving size).OnlyRoams := Builtin.onlyRoams _ _ _
  rw [Pipeline.NeverEnds, Pipeline.execute_endless_iff hroams rfl, Pipeline.Stalls,
    Attempt.final_of_ok hrun, haccounted.stuck_iff, hprocesses, hunread]
  simp [hidle, fullEngine, Engine.moving]

end Relay

end PipelineShell
