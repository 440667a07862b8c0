import PipelineShell.Proofs.Copying.Calls
import PipelineShell.Proofs.Copying.LineEnds
import PipelineShell.Proofs.Replay.Lines
import PipelineShell.Proofs.Survival.Lines
import PipelineShell.Proofs.Transparency.Decoding

/-! What `cat` copies. It reads a file as text, and all line ends become line feeds: so a file comes
through unchanged just where it has no carriage return, although a builtin writes one as it is. -/

namespace PipelineShell

open Attempt FileTree Shell

theorem Registry.isBuiltin_of_resolve {α : Type} {r : Registry α} {name : String} {a : α}
    (hname : name.isEmpty = false) (h : r.resolve name = .ok a) : r.isBuiltin name = true := by
  unfold Registry.resolve at h
  unfold Registry.isBuiltin
  cases hr : r.get? name with
  | none => simp [hr] at h
  | some b => simp [hname]

def Shell.alone {τ : Type} (s : Shell τ) : Shell τ :=
  { s with given := "", captured := "" }

section

variable {τ : Type} {e : Engine τ} {tag : τ} {c : Command} {s u : Shell τ} {b : Bool}

theorem Pipeline.execute_builtin (hc : c.isEmpty = false)
    (htag : s.registry.resolve c.name = .ok tag) (h : invoke e tag c s.alone = .ok b u) :
    (⟨c, []⟩ : Pipeline).execute e s = .ok b { u with wiring := s.wiring } := by
  have hb : s.registry.isBuiltin c.name = true := Registry.isBuiltin_of_resolve hc htag
  have hstage : Job.runStage e c true (Job.start s) = .ok () { Job.start s with
      shell := { u with wiring := s.wiring }
      keepGoing := b } := by
    have hshell : (Job.start s).builtinShell true = s.alone := rfl
    rw [Job.runStage_of_resolve hc hb htag, Job.runBuiltin_apply, hshell, h]
    rfl
  have hstages : Job.runStages e [c] (Job.start s) = .ok () { Job.start s with
      shell := { u with wiring := s.wiring }
      keepGoing := b } := bind_of_ok hstage _
  have hrun : Job.run e ⟨c, []⟩ (Job.start s) = .ok () { Job.start s with
      shell := { u with wiring := s.wiring }
      keepGoing := b } :=
    ensure_eq_ok.mpr ⟨_, bind_of_ok hstages _, rfl⟩
  have hidle : (⟨c, []⟩ : Pipeline).isIdle = false := hc
  rw [Pipeline.execute, hidle, hrun]
  rfl

end

namespace FileTree

variable {t v : FileTree} {dir place : Location} {file : String × String}

structure HasFile (t : FileTree) (dir place : Location) (file : String × String) : Prop where
  isPath : FileTree.isPath file.1 = true
  reached : ∃ l x, t.reach dir file.1 = .ok (l, .file (Text.encode file.2) x) ∧ l ≠ place

theorem HasFile.mono (h : t.HasFile dir place file) (hkeeps : KeepsBut place t v) :
    v.HasFile dir place file := by
  obtain ⟨l, x, hreach, hl⟩ := h.reached
  obtain ⟨e', hreach', -, hsame⟩ := hkeeps.reach hreach
  rw [hsame hl] at hreach'
  exact ⟨h.isPath, l, x, hreach', hl⟩

end FileTree

namespace World

variable {w : World} {place : Location}

theorem read_of_reach {path : String} {l : Location} {bytes : ByteArray} {x : Bool}
    (hpath : FileTree.isPath path = true) (h : w.tree.reach w.dir path = .ok (l, .file bytes x)) :
    w.read path = .ok bytes := by
  rw [World.read, hpath, if_pos rfl, FileTree.read_of_reach h]
  rfl

theorem read_of_hasFile {file : String × String} (h : w.tree.HasFile w.dir place file) :
    w.read file.1 = .ok (Text.encode file.2) := by
  obtain ⟨l, x, hreach, -⟩ := h.reached
  exact read_of_reach h.isPath hreach

end World

namespace Builtin

variable {f : BlockWriter} {t₀ : FileTree} {text : String} {s : Shell Builtin}

theorem copyFile_apply {path : String} {bytes : ByteArray} (h : s.world.read path = .ok bytes) :
    copyFile path s = Shell.write (Text.unifyLines (Text.decode bytes)) s := by
  rw [copyFile, bind_of_ok (get_apply s), h]

/-- The files come to the target one after the other, with a line feed at every line end. -/
theorem copyFiles_fills (hf : ¬f.OnFull t₀) {files : List (String × String)}
    (h : Fills f t₀ text s) (hfiles : ∀ file ∈ files, t₀.HasFile s.world.dir f.place file) :
    ∃ t, copyFiles (files.map (·.1)) s = .ok () t ∧ t.world.dir = s.world.dir ∧
      Fills f t₀ (text ++ String.join (files.map fun file => Text.unifyLines file.2)) t := by
  induction files generalizing s text with
  | nil => exact ⟨s, rfl, rfl, by simpa using h⟩
  | cons file files ih =>
    have hread : s.world.read file.1 = .ok (Text.encode file.2) :=
      World.read_of_hasFile ((hfiles file List.mem_cons_self).mono h.keepsBut)
    obtain ⟨s', hs', hsame, hfills⟩ := h.write hf (Text.unifyLines file.2)
    have hcopy : copyFile file.1 s = .ok () s' := by
      rw [copyFile_apply hread, Text.decode_encode]
      exact hs'
    have hdir : s'.world.dir = s.world.dir := by rw [hsame.same]
    obtain ⟨t, ht, hdir', htext⟩ := ih hfills fun file' hfile' =>
      hdir ▸ hfiles file' (List.mem_cons_of_mem file hfile')
    refine ⟨t, ?_, hdir'.trans hdir, ?_⟩
    · rw [List.map_cons, copyFiles, bind_of_ok (handle_of_ok hcopy _)]
      exact ht
    · simpa [String.append_assoc] using htext

end Builtin

end PipelineShell
