import PipelineShell.Proofs.Abort.Causes
import PipelineShell.Proofs.Copying.Writers
import PipelineShell.Proofs.Transparency.Diversion

/-! A builtin whose output goes to a file. All that it writes comes to the file, in order, and to
nothing else, and the builtin fails in no other way than on the shell's own output. -/

namespace PipelineShell

open Attempt FileTree

namespace Shell

variable {τ α : Type} {f : BlockWriter} {t₀ : FileTree} {text : String} {s t : Shell τ}

/-- The output leads to a file that has taken a text since it was opened, and the errors lead to the
shell's own. -/
structure Fills (f : BlockWriter) (t₀ : FileTree) (text : String) (s : Shell τ) : Prop where
  stdout : s.wiring.stdout = .file .stdout
  stderr : s.wiring.stderr = .errors
  taken : ∃ w, s.outFile = some w ∧ TextWriter.Taken f t₀ (Text.encode text) (w, s.world.tree)

theorem Fills.keepsBut (h : Fills f t₀ text s) : KeepsBut f.place t₀ s.world.tree := by
  obtain ⟨w, -, below, ⟨done, -, htree, -⟩, -⟩ := h.taken
  rw [show s.world.tree = f.released done t₀ from htree]
  exact BlockWriter.keepsBut_released f done t₀

theorem Fills.of_same (h : Fills f t₀ text s) (hw : t.wiring = s.wiring)
    (hfile : t.outFile = s.outFile) (htree : t.world.tree = s.world.tree) : Fills f t₀ text t where
  stdout := hw ▸ h.stdout
  stderr := hw ▸ h.stderr
  taken := by rw [hfile, htree]; exact h.taken

variable (hf : ¬f.OnFull t₀)

include hf

theorem Fills.write (h : Fills f t₀ text s) (more : String) :
    ∃ t, write more s = .ok () t ∧ FilesOnly s t ∧ Fills f t₀ (text ++ more) t := by
  obtain ⟨w, hw, htaken⟩ := h.taken
  have hfile : s.file .stdout = some w := hw
  obtain ⟨⟨v, u⟩, hwrite, hmore⟩ := TextWriter.taken_write hf htaken more
  have hstep : Shell.write more s = .ok () ((s.setTree u).setFile .stdout (some v)) := by
    rw [Shell.write, bind_of_ok (get_apply s), h.stdout, Shell.writeTo, onFile_of_some hfile, hwrite]
  rw [← Text.encode_append] at hmore
  have hfiles : FilesOnly s ((s.setTree u).setFile .stdout (some v)) :=
    filesOnly_setFile s .stdout (some v) fun l d hd => by
      have := (TextWriter.keeps_write more).ok hwrite
      exact this.noNewDevice l d hd
  exact ⟨_, hstep, hfiles, h.stdout, h.stderr, v, rfl, hmore⟩

theorem Fills.writeTo (h : Fills f t₀ text s) (stream : Stream) (more : String) :
    ∃ t, writeTo (s.wiring.outlet stream) more s = .ok () t ∧ t.wiring = s.wiring ∧
      Fills f t₀ (text ++ told .stdout [(stream, more)]) t := by
  cases stream with
  | stdout =>
    obtain ⟨t, ht, hfiles, hfills⟩ := h.write hf more
    exact ⟨t, ht, hfiles.wiring, by simpa [told] using hfills⟩
  | stderr =>
    have herr : s.wiring.outlet .stderr = .errors := h.stderr
    have hsame : Fills f t₀ text { s with errors := s.errors.write more } := h.of_same rfl rfl rfl
    rw [herr]
    exact ⟨_, rfl, rfl, by simpa [told] using hsame⟩

theorem Fills.acts {said : List (Stream × String)} (h : Fills f t₀ text s)
    (hacts : Acts Roams s said t) : Fills f t₀ (text ++ told .stdout said) t := by
  -- Only what is written adds to the text; the other acts leave the file and the tree alone.
  induction hacts generalizing text with
  | rest s => simpa [told] using h
  | write stream more hrest ih =>
    obtain ⟨t, ht, -, hfills⟩ := h.writeTo hf stream more
    rw [final_of_ok ht] at ih
    have := ih hfills
    simpa [told, String.append_assoc] using this
  | @read s t said hrest ih =>
    refine ih (h.of_same ?_ ?_ ?_) <;>
      (rw [final_readAll]; cases s.wiring.stdin <;> rfl)
  | change hother hrest ih => exact ih (h.of_same (by rw [hother]) (by rw [hother]) (by rw [hother]))

theorem Fills.printLine (h : Fills f t₀ text s) (stream : Stream) (more : String) :
    ∃ t, printLine stream more s = .ok () t ∧
      Fills f t₀ (text ++ told .stdout [(stream, more), (stream, "\n")]) t := by
  obtain ⟨s', hs', hwiring, hfills⟩ := h.writeTo hf stream more
  obtain ⟨t, ht, -, hfills'⟩ := hfills.writeTo hf stream "\n"
  rw [hwiring] at ht
  refine ⟨t, ?_, by simpa [told, String.append_assoc] using hfills'⟩
  rw [Shell.printLine, bind_of_ok (get_apply s), bind_of_ok hs']
  exact ht

theorem Fills.flush (h : Fills f t₀ text s) : ∃ w u,
    flush s.wiring.stdout s = .ok () ((s.setTree u).setFile .stdout (some w)) ∧
      Fills f t₀ text ((s.setTree u).setFile .stdout (some w)) := by
  obtain ⟨w, hw, htaken⟩ := h.taken
  have hfile : s.file .stdout = some w := hw
  obtain ⟨⟨v, u⟩, hflush, hbelow, hgathered⟩ := TextWriter.taken_flush hf htaken
  refine ⟨v, u, ?_, h.stdout, h.stderr, v, rfl, _, hbelow, ?_⟩
  · rw [h.stdout, Shell.flush, onFile_of_some hfile, hflush]
  · rw [hgathered, ByteArray.append_empty]

theorem closeFile_of_taken {w : TextWriter} (hw : s.outFile = some w)
    (htaken : TextWriter.Taken f t₀ (Text.encode text) (w, s.world.tree)) : closeFile .stdout s =
      .ok () { s.setTree (f.released (Text.encode text) t₀) with outFile := none } := by
  have hfile : s.file .stdout = some w := hw
  obtain ⟨v, hclose⟩ := TextWriter.taken_close hf htaken
  have hshut : onFile .stdout TextWriter.close s = .ok ()
      ((s.setTree (f.released (Text.encode text) t₀)).setFile .stdout (some v)) := by
    rw [onFile_of_some hfile, hclose]
  exact ensure_eq_ok.mpr ⟨_, hshut, rfl⟩

theorem Fills.released_eq {other : String} (h : Fills f t₀ text s) (h' : Fills f t₀ other s) :
    f.released (Text.encode text) t₀ = f.released (Text.encode other) t₀ := by
  obtain ⟨w, hw, htaken⟩ := h.taken
  obtain ⟨w', hw', htaken'⟩ := h'.taken
  cases hw.symm.trans hw'
  obtain ⟨v, hclose⟩ := TextWriter.taken_close hf htaken
  obtain ⟨v', hclose'⟩ := TextWriter.taken_close hf htaken'
  rw [hclose, EStateM.Result.ok.injEq, Prod.mk.injEq] at hclose'
  exact hclose'.2.2

theorem Plain.error {P : Failure → Prop} {x : Shell.Step τ α} (hx : Plain P x)
    (h : Fills f t₀ text s) {g : Failure} (hg : x s = .error g t) : P g := by
  induction hx generalizing text s t g with
  | done a => cases hg
  | fail hP =>
    cases hg
    exact hP
  | write more =>
    obtain ⟨u, hu, -⟩ := h.write hf more
    rw [hu] at hg
    cases hg
  | line stream more =>
    obtain ⟨u, hu, -⟩ := h.printLine hf stream more
    rw [hu] at hg
    cases hg
  | read =>
    rw [readAll_apply] at hg
    cases hg
  | roam change hchange => cases hg
  | look hsame hrest ih => exact ih s h hg
  | bind hx hrest ihx ihrest =>
    rcases bind_eq_error.mp hg with hg | ⟨a, u, hu, hg⟩
    · exact ihx h hg
    · obtain ⟨said, hacts⟩ := hx.keeps.ok hu
      exact ihrest a (h.acts hf hacts) hg
  | handle hx hother ihx ihother =>
    rcases handle_eq_error.mp hg with ⟨hg, -⟩ | ⟨g', u, y, hu, hy, hg⟩
    · exact ihx h hg
    · obtain ⟨said, hacts⟩ := hx.keeps.error hu
      exact ihother g' y hy (h.acts hf hacts) hg

end Shell

/-- The output goes to a file, which is emptied first. -/
def Redirection.into (path : String) : Redirection :=
  ⟨⟨some path, false⟩, ⟨Option.none, false⟩⟩

namespace Shell

variable {τ : Type} {e : Engine τ} {tag : τ} {name path : String} {args : List String}
  {s v : Shell τ} {place : Location} {u : FileTree} {b : Bool} {text : String}

/-- The shell in which a builtin is called whose output goes to a file that was just opened. -/
def into (s : Shell τ) (place : Location) (u : FileTree) : Shell τ :=
  { s.setTree u with
    outFile := some (.start place false)
    wiring := { s.wiring with stdout := .file .stdout } }

theorem fills_into (hw : s.wiring.stderr = .errors) :
    Fills (.start place false) u "" (s.into place u) :=
  ⟨rfl, hw, _, rfl, TextWriter.taken_start place false u⟩

theorem openTargets_into
    (hopen : FileTree.openTarget s.world.dir path false s.world.tree = .ok place u) :
    openTargets (.into path) s =
      .ok () ((s.setTree u).setFile .stdout (some (.start place false))) := by
  have hin : (Redirection.into path).stdout.openIn s.world.dir s.world.tree =
      .ok (some place) u := bind_of_ok hopen _
  have hout : openDestination .stdout (Redirection.into path).stdout s =
      .ok () ((s.setTree u).setFile .stdout (some (.start place false))) := by
    rw [openDestination_apply, hin]
    rfl
  exact bind_of_ok hout _

theorem invoke_into
    (hopen : FileTree.openTarget s.world.dir path false s.world.tree = .ok place u)
    (hroom : ¬(BlockWriter.start place false).OnFull u)
    (hcall : (e.handler tag args).handle (reportAs name) (s.into place u) = .ok b v)
    (hv : Fills (.start place false) u text v) :
    invoke e tag ⟨name, args, .into path⟩ s = .ok b { v with
      world := { v.world with
        tree := (BlockWriter.start place false).released (Text.encode text) u }
      outFile := none
      wiring := s.wiring } := by
  obtain ⟨w, t, hflush, hfills⟩ := hv.flush hroom
  have hcalled : called e tag ⟨name, args, .into path⟩ (s.into place u) =
      .ok b ((v.setTree t).setFile .stdout (some w)) :=
    ensure_eq_ok.mpr ⟨v, hcall, hflush⟩
  rw [invoke, redirected_of_openTargets (openTargets_into hopen)]
  obtain ⟨w', hw', htaken⟩ := hfills.taken
  exact ensure_eq_ok.mpr ⟨_, ensure_eq_ok.mpr ⟨_, bound_eq_ok.mpr ⟨_, hcalled, rfl⟩, rfl⟩,
    closeFile_of_taken hroom (s := { (v.setTree t).setFile .stdout (some w) with
      wiring := s.wiring }) hw' htaken⟩

end Shell

end PipelineShell
