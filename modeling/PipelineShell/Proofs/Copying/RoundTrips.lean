import PipelineShell.Proofs.Conduct.Frames
import PipelineShell.Proofs.Copying.Copies
import PipelineShell.Proofs.Copying.Targets

/-! There and back. What a builtin writes to a file is in it to the last character; `cat` gives it
back with a line feed at every line end. -/

namespace PipelineShell

open Attempt FileTree Shell

/-- The path is opened to be written to, from the start of the file or behind what it holds, and a
file is at its place in the tree by then. -/
structure Shell.OpensOnto {τ : Type} (s : Shell τ) (path : String) (append : Bool)
    (place : Location) (u : FileTree) : Prop where
  opened : FileTree.openTarget s.world.dir path append s.world.tree = .ok place u
  isFile : ∃ bytes x, u.get? place = some (.file bytes x)

def Shell.kept {τ : Type} (s : Shell τ) (append : Bool) (place : Location) : ByteArray :=
  if append then s.world.tree.content place else .empty

namespace Shell.OpensOnto

variable {τ : Type} {s : Shell τ} {path : String} {append : Bool} {place : Location} {u : FileTree}
  (h : s.OpensOnto path append place u)

include h

theorem not_onFull : ¬(BlockWriter.start place append).OnFull u := by
  intro hfull
  obtain ⟨bytes, x, hfile⟩ := h.isFile
  rw [BlockWriter.OnFull, show (BlockWriter.start place append).place = place from rfl, hfile]
    at hfull
  cases hfull

theorem get?_released (bytes : ByteArray) : ∃ x,
    ((BlockWriter.start place append).released bytes u).get? place =
      some (.file (s.kept append place ++ bytes) x) := by
  obtain ⟨old, x, hfile⟩ := h.isFile
  have hold : old = s.kept append place := by
    have hcontent := content_of_openTarget h.opened
    rwa [content, hfile] at hcontent
  refine ⟨x, ?_⟩
  rw [BlockWriter.get?_released_start hfile ?_, hold]
  rintro rfl
  exact hold

theorem read {w : World} {bytes : ByteArray} (hdir : w.dir = s.world.dir)
    (htree : w.tree = (BlockWriter.start place append).released bytes u) :
    w.read path = .ok (s.kept append place ++ bytes) := by
  obtain ⟨old, x, hfile⟩ := h.isFile
  obtain ⟨x', hget⟩ := h.get?_released bytes
  have hkeeps : KeepsBut place u w.tree :=
    htree ▸ BlockWriter.keepsBut_released (BlockWriter.start place append) bytes u
  have hreach := reach_of_keepsBut h.opened hfile ⟨old, x, rfl⟩ hkeeps (htree ▸ hget)
  exact World.read_of_reach (isPath_of_openTarget h.opened) (hdir ▸ hreach)

end Shell.OpensOnto

/-- The path is opened to be written to, and a file is at its place in the tree by then. -/
structure Shell.Opens {τ : Type} (s : Shell τ) (path : String) (place : Location) (u : FileTree) :
    Prop where
  opened : FileTree.openTarget s.world.dir path false s.world.tree = .ok place u
  isFile : ∃ bytes x, u.get? place = some (.file bytes x)

section

variable {τ : Type} {e : Engine τ} {tag : τ} {name path text : String} {args : List String}
  {s v : Shell τ} {place : Location} {u : FileTree} {b : Bool}

theorem Shell.kept_false : s.kept false place = .empty := rfl

namespace Shell.Opens

variable (h : s.Opens path place u)

include h

theorem onto : s.OpensOnto path false place u :=
  ⟨h.opened, h.isFile⟩

theorem not_onFull : ¬(BlockWriter.start place false).OnFull u :=
  h.onto.not_onFull

theorem get?_released (text : String) : ∃ x,
    ((BlockWriter.start place false).released (Text.encode text) u).get? place =
      some (.file (Text.encode text) x) := by
  have hget := h.onto.get?_released (Text.encode text)
  rwa [kept_false, ByteArray.empty_append] at hget

theorem read {w : World} (hdir : w.dir = s.world.dir)
    (htree : w.tree = (BlockWriter.start place false).released (Text.encode text) u) :
    w.read path = .ok (Text.encode text) := by
  have hread := h.onto.read hdir htree
  rwa [kept_false, ByteArray.empty_append] at hread

theorem execute (hname : name.isEmpty = false) (htag : s.registry.resolve name = .ok tag)
    (hcall : (e.handler tag args).handle (reportAs name) (s.alone.into place u) = .ok b v)
    (hv : Fills (.start place false) u text v) :
    ∃ t, (⟨⟨name, args, .into path⟩, []⟩ : Pipeline).execute e s = .ok b t ∧
      t.world = { v.world with
        tree := (BlockWriter.start place false).released (Text.encode text) u } :=
  ⟨_, Pipeline.execute_builtin hname htag (invoke_into h.opened h.not_onFull hcall hv), rfl⟩

end Shell.Opens

end

namespace Builtin

variable {b : Builtin} {args : List String} {f : BlockWriter} {t₀ : FileTree} {text : String}
  {s : Shell Builtin}

/-- The builtin, called in this shell, writes the text to its output. -/
def Writes (b : Builtin) (args : List String) (s : Shell Builtin) (text : String) : Prop :=
  ∃ said, Acts Roams s said ((b.run args).final s) ∧ told .stdout said = text

theorem exists_writes (b : Builtin) (args : List String) (s : Shell Builtin) :
    ∃ text, b.Writes args s text := by
  obtain ⟨said, hacts⟩ := (plain_run b args).keeps s
  exact ⟨_, said, hacts, rfl⟩

theorem call_fills (hf : ¬f.OnFull t₀) (h : Fills f t₀ "" s) (name : String)
    (hwrites : b.Writes args s text) : ∃ goesOn v,
      (b.run args).handle (reportAs name) s = .ok goesOn v ∧ Fills f t₀ text v := by
  obtain ⟨said, hacts, rfl⟩ := hwrites
  have hfills := h.acts hf hacts
  rw [String.empty_append] at hfills
  cases hrun : b.run args s with
  | ok goesOn v =>
    rw [final_of_ok hrun] at hfills
    exact ⟨goesOn, v, handle_of_ok hrun _, hfills⟩
  | error g v =>
    rw [final_of_error hrun] at hfills
    obtain ⟨fault, rfl⟩ := (plain_run b args).error hf h hrun
    obtain ⟨v', hsaid, hfills'⟩ := hfills.printLine hf .stderr (name ++ ": " ++ fault.message)
    refine ⟨Bool.true, v', ?_, by simpa [told] using hfills'⟩
    rw [handle_of_some hrun rfl]
    exact bind_of_ok hsaid _

theorem runEcho_fills (hf : ¬f.OnFull t₀) (h : Fills f t₀ "" s) (args : List String) : ∃ v,
    echo.run args s = .ok Bool.true v ∧ v.world.dir = s.world.dir ∧
      Fills f t₀ (Text.joined " " args ++ "\n") v := by
  obtain ⟨v, hsaid, hfills⟩ := h.printLine hf .stdout (Text.joined " " args)
  have hworks := (worksOn_printLine .stdout (Text.joined " " args)).ok hsaid
  exact ⟨v, bind_of_ok hsaid _, by rw [hworks.same], by simpa [told] using hfills⟩

theorem runCat_fills_toRead (hf : ¬f.OnFull t₀) (h : Fills f t₀ "" s) : ∃ v,
    cat.run [] s = .ok Bool.true v ∧ v.world.dir = s.world.dir ∧ Fills f t₀ s.toRead v := by
  have hfinal := final_readAll s
  have hsame : Fills f t₀ "" (readAll.final s) := by
    cases hin : s.wiring.stdin <;> (rw [hfinal, hin]; exact h.of_same rfl rfl rfl)
  obtain ⟨v, hwrite, hfiles, hfills⟩ := hsame.write hf s.toRead
  have hdir : (readAll.final s).world.dir = s.world.dir := by
    cases hin : s.wiring.stdin <;> (rw [hfinal, hin])
  refine ⟨v, ?_, by rw [hfiles.same, hdir], by simpa using hfills⟩
  have hcat : (cat.run [] : Shell.Step Builtin Bool) =
      readAll >>= fun text => Shell.write text >>= fun _ => pure Bool.true := rfl
  rw [hcat, bind_of_ok (readAll_apply s), bind_of_ok hwrite]
  rfl

theorem runCat_fills (hf : ¬f.OnFull t₀) (h : Fills f t₀ "" s) (hown : s.wiring.stdin = .own) : ∃ v,
    cat.run [] s = .ok Bool.true v ∧ v.world.dir = s.world.dir ∧ Fills f t₀ s.remaining v := by
  have hread : s.toRead = s.remaining := by rw [toRead, hown]
  rw [← hread]
  exact runCat_fills_toRead hf h

end Builtin

theorem Text.encode_inj {a b : String} : Text.encode a = Text.encode b ↔ a = b := by
  refine ⟨fun h => ?_, congrArg Text.encode⟩
  have hdecode := congrArg Text.decode h
  rwa [Text.decode_encode, Text.decode_encode] at hdecode

theorem Console.write_inj {c : Console} {a b : String} : c.write a = c.write b ↔ a = b := by
  cases c with
  | text written => simp [Console.write]
  | raw written => simp [Console.write, Text.encode_inj]

def Shell.shows {τ : Type} (s : Shell τ) (text : String) : Shell τ :=
  { s.alone with output := s.output.write text }

/-- The file holds the text, and `cat` gives it back with a line feed at every line end. -/
structure Returns (e : Engine Builtin) (path text : String) (t : Shell Builtin) : Prop where
  held : t.world.read path = .ok (Text.encode text)
  shown : (⟨⟨"cat", [path], .none⟩, []⟩ : Pipeline).execute e t =
    .ok true (t.shows (Text.unifyLines text))
  whole : t.shows (Text.unifyLines text) = t.shows text ↔ '\r' ∉ text.toList

/-- The path can be opened in a shell that is wired to its own and knows `cat`. -/
structure Shell.Copier (s : Shell Builtin) (path : String) (place : Location) (u : FileTree) : Prop
    extends s.Opens path place u where
  own : s.wiring = .own
  cat : s.registry.resolve "cat" = .ok .cat

/-- How the builtins copy. -/
structure CopiesUnified (e : Engine Builtin) : Prop where
  /-- Every target can be opened that is a file, or a free name in a directory. -/
  opens : ∀ (s : Shell Builtin) (path : String) (place : Location), s.wiring = .own →
    s.registry.resolve "cat" = .ok .cat → s.world.tree.Offers s.world.dir path place →
    ∃ u, s.Copier path place u
  /-- Files that are copied into one come there one after the other, with a line feed at every line
  end: so this holds just what they hold, or one of them has a carriage return. -/
  joins : ∀ (s : Shell Builtin) (path : String) (place : Location) (u : FileTree)
    (files : List (String × String)), s.Copier path place u → files ≠ [] →
    (∀ file ∈ files, s.world.tree.HasFile s.world.dir place file) →
    ∃ t, (⟨⟨"cat", files.map (·.1), .into path⟩, []⟩ : Pipeline).execute e s = .ok true t ∧
      t.world.read path =
        .ok (Text.encode (String.join (files.map fun file => Text.unifyLines file.2))) ∧
      (t.world.read path = .ok (Text.encode (String.join (files.map (·.2)))) ↔
        ∀ file ∈ files, '\r' ∉ file.2.toList) ∧
      FileTree.KeepsBut place s.world.tree t.world.tree
  /-- What a builtin writes to a file is in it to the last character. -/
  returns : ∀ (s : Shell Builtin) (path : String) (place : Location) (u : FileTree) (name : String)
    (b : Builtin) (args : List String), s.Copier path place u → name.isEmpty = false →
    s.registry.resolve name = .ok b →
    ∃ goesOn t text, (∀ other, b.Writes args (s.alone.into place u) other ↔ other = text) ∧
      (⟨⟨name, args, .into path⟩, []⟩ : Pipeline).execute e s = .ok goesOn t ∧
      (t.world.dir = s.world.dir → Returns e path text t)
  echoes : ∀ (s : Shell Builtin) (path : String) (place : Location) (u : FileTree)
    (args : List String), s.Copier path place u → s.registry.resolve "echo" = .ok .echo →
    ∃ t, (⟨⟨"echo", args, .into path⟩, []⟩ : Pipeline).execute e s = .ok true t ∧
      Returns e path (Text.joined " " args ++ "\n") t
  /-- Every text comes to a file from the input, all of it that is left. -/
  takesIn : ∀ (s : Shell Builtin) (path : String) (place : Location) (u : FileTree),
    s.Copier path place u →
    ∃ t, (⟨⟨"cat", [], .into path⟩, []⟩ : Pipeline).execute e s = .ok true t ∧
      Returns e path s.remaining t
  lines : ∀ (s t : Shell Builtin) (line : String) (b : Bool),
    (Pipeline.parse line).isIdle = false →
    (Pipeline.parse line).execute e (s.noted line) = .ok b t → Shell.runLine e line s = .ok b t

section

variable {programs : Programs} {chunkSize : Int} {host : Host} {path text : String}
  {s t v : Shell Builtin}
  {place : Location} {u : FileTree} {b : Bool} {name : String} {tag : Builtin} {args : List String}

theorem Builtin.execute_cat (hcat : t.registry.resolve "cat" = .ok Builtin.cat)
    (hw : t.wiring.stdout = .output) (hread : t.world.read path = .ok (Text.encode text)) :
    (⟨⟨"cat", [path], .none⟩, []⟩ : Pipeline).execute ⟨Builtin.run, programs, chunkSize, host⟩ t =
      .ok Bool.true (t.shows (Text.unifyLines text)) := by
  have hcopy : copyFile path t.alone = .ok () (t.shows (Text.unifyLines text)) := by
    have hout : t.alone.wiring.stdout = .output := hw
    rw [copyFile_apply (s := t.alone) hread, Text.decode_encode, Shell.write,
      bind_of_ok (get_apply _), hout]
    rfl
  have hrun : Builtin.run .cat [path] t.alone = .ok Bool.true (t.shows (Text.unifyLines text)) :=
    bind_of_ok (bind_of_ok (handle_of_ok hcopy _) _) _
  have hcalled :
      called ⟨Builtin.run, programs, chunkSize, host⟩ .cat ⟨"cat", [path], .none⟩ t.alone =
      .ok Bool.true (t.shows (Text.unifyLines text)) := by
    have hout : (t.shows (Text.unifyLines text)).wiring.stdout = .output := hw
    refine ensure_eq_ok.mpr ⟨_, handle_of_ok hrun _, ?_⟩
    rw [bind_of_ok (get_apply _), hout]
    rfl
  have hinvoke :
      invoke ⟨Builtin.run, programs, chunkSize, host⟩ .cat ⟨"cat", [path], .none⟩ t.alone =
      .ok Bool.true (t.shows (Text.unifyLines text)) :=
    redirected_eq_ok.mpr ⟨t.alone, t.shows (Text.unifyLines text), rfl, hcalled, rfl⟩
  exact Pipeline.execute_builtin (c := ⟨"cat", [path], .none⟩) rfl hcat hinvoke

theorem Shell.shows_inj {a b : String} : t.shows a = t.shows b ↔ a = b := by
  refine ⟨fun h => ?_, congrArg t.shows⟩
  exact Console.write_inj.mp (congrArg Shell.output h)

theorem returns_of_read (hcat : t.registry.resolve "cat" = .ok .cat)
    (hw : t.wiring.stdout = .output) (hread : t.world.read path = .ok (Text.encode text)) :
    Returns ⟨Builtin.run, programs, chunkSize, host⟩ path text t where
  held := hread
  shown := Builtin.execute_cat hcat hw hread
  whole := Shell.shows_inj.trans Text.unifyLines_eq_self_iff

theorem Shell.Copier.fills (h : s.Copier path place u) :
    Fills (.start place false) u "" (s.alone.into place u) :=
  fills_into (show s.wiring.stderr = .errors by rw [h.own]; rfl)

theorem Shell.Copier.returns (h : s.Copier path place u) (hname : name.isEmpty = false)
    (htag : s.registry.resolve name = .ok tag)
    (hcall : (tag.run args).handle (reportAs name) (s.alone.into place u) = .ok b v)
    (hv : Fills (.start place false) u text v) : ∃ t,
      (⟨⟨name, args, .into path⟩, []⟩ : Pipeline).execute ⟨Builtin.run, programs, chunkSize, host⟩ s =
        .ok b t ∧
      t.world = { v.world with
        tree := (BlockWriter.start place false).released (Text.encode text) u } ∧
      (t.world.dir = s.world.dir → Returns ⟨Builtin.run, programs, chunkSize, host⟩ path text t) := by
  obtain ⟨t, hrun, hworld⟩ :=
    h.toOpens.execute (e := ⟨Builtin.run, programs, chunkSize, host⟩) hname htag hcall hv
  refine ⟨t, hrun, hworld, fun hdir => ?_⟩
  have hrests := (Pipeline.rests_execute (Builtin.onlyRoams programs chunkSize host) _).ok hrun
  have hout : t.wiring.stdout = .output := by rw [hrests.wiring, h.own]; rfl
  have hcat : t.registry.resolve "cat" = .ok .cat := by rw [hrests.registry, h.cat]
  exact returns_of_read hcat hout (h.toOpens.read hdir (congrArg World.tree hworld))

theorem Shell.Copier.writes_inj (h : s.Copier path place u) {first second : String}
    (hfirst : tag.Writes args (s.alone.into place u) first)
    (hsecond : tag.Writes args (s.alone.into place u) second) : first = second := by
  obtain ⟨goesOn, v, hcall, hv⟩ := Builtin.call_fills h.toOpens.not_onFull h.fills "" hfirst
  obtain ⟨goesOn', v', hcall', hv'⟩ := Builtin.call_fills h.toOpens.not_onFull h.fills "" hsecond
  rw [hcall] at hcall'
  cases hcall'
  obtain ⟨x, hget⟩ := h.toOpens.get?_released first
  obtain ⟨x', hget'⟩ := h.toOpens.get?_released second
  rw [hv.released_eq h.toOpens.not_onFull hv', hget', Option.some.injEq, Entry.file.injEq,
    Text.encode_inj] at hget
  exact hget.1.symm

end

/-- `cat` copies a text but for its line ends, of which it makes line feeds; what any builtin writes
to a file gets there as it is. -/
theorem Builtin.cat_copies_unified (programs : Programs) (chunkSize : Int) (host : Host) :
    CopiesUnified ⟨Builtin.run, programs, chunkSize, host⟩ where
  opens s path place hown hcat hoffers := by
    obtain ⟨u, x, hopened, hget⟩ := openTarget_of_offers hoffers
    exact ⟨u, ⟨hopened, .empty, x, hget⟩, hown, hcat⟩
  joins s path place u files h hne hall := by
    have hopened := keepsBut_of_openTarget h.opened
    obtain ⟨v, hcopy, hdir, hv⟩ := copyFiles_fills h.toOpens.not_onFull h.fills
      fun file hfile => (hall file hfile).mono hopened
    rw [String.empty_append] at hv
    have hrun : Builtin.run .cat (files.map (·.1)) (s.alone.into place u) = .ok Bool.true v := by
      cases files with
      | nil => exact absurd rfl hne
      | cons file files => exact bind_of_ok hcopy _
    obtain ⟨t, ht, hworld, hreturns⟩ := h.returns rfl h.cat (handle_of_ok hrun _) hv
    have hread := (hreturns (by rw [hworld]; exact hdir)).held
    refine ⟨t, ht, hread, ?_, ?_⟩
    · have hwhole := @Text.join_unifyLines_eq_iff (files.map (·.2))
      rw [List.map_map, List.forall_mem_map] at hwhole
      rw [hread, Except.ok.injEq, Text.encode_inj]
      exact hwhole
    · rw [hworld]
      exact trans_of (KeepsBut place) hopened (BlockWriter.keepsBut_released _ _ u)
  returns s path place u name b args h hname htag := by
    obtain ⟨text, hwrites⟩ := b.exists_writes args (s.alone.into place u)
    obtain ⟨goesOn, v, hcall, hv⟩ := call_fills h.toOpens.not_onFull h.fills name hwrites
    obtain ⟨t, ht, hworld, hreturns⟩ := h.returns hname htag hcall hv
    refine ⟨goesOn, t, text, fun other => ⟨fun hother => ?_, ?_⟩, ht, hreturns⟩
    · exact h.writes_inj hother hwrites
    · rintro rfl
      exact hwrites
  echoes s path place u args h htag := by
    obtain ⟨v, hrun, hdir, hv⟩ := runEcho_fills h.toOpens.not_onFull h.fills args
    obtain ⟨t, ht, hworld, hreturns⟩ := h.returns rfl htag (handle_of_ok hrun _) hv
    exact ⟨t, ht, hreturns (by rw [hworld]; exact hdir)⟩
  takesIn s path place u h := by
    have hown : (s.alone.into place u).wiring.stdin = .own :=
      show s.wiring.stdin = .own by rw [h.own]; rfl
    obtain ⟨v, hrun, hdir, hv⟩ := runCat_fills h.toOpens.not_onFull h.fills hown
    obtain ⟨t, ht, hworld, hreturns⟩ := h.returns rfl h.cat (handle_of_ok hrun _) hv
    exact ⟨t, ht, hreturns (by rw [hworld]; exact hdir)⟩
  lines s t line b hidle hrun := by
    rw [runLine_apply hidle]
    exact handle_of_ok hrun _

namespace Builtin

def trialShell : Shell Builtin :=
  .start ⟨⟨[(["a"], .file (Text.encode "x\r\ny") false)], 4096⟩, [], [],
    ⟨2024, 1, 1, 0, 0, 0, 0⟩, [], ⟨none, []⟩⟩ ⟨[("cat", .cat)]⟩ none (.empty 0) "" (.text "")

theorem offers_trialShell : trialShell.world.tree.Offers trialShell.world.dir "g" ["g"] :=
  ⟨by decide, .inr ⟨[], "g", by decide +kernel, by decide⟩⟩

theorem hasFile_trialShell :
    trialShell.world.tree.HasFile trialShell.world.dir ["g"] ("a", "x\r\ny") :=
  ⟨by decide, ["a"], false, by decide +kernel, by decide⟩

/-- The copy of the file has one character less. -/
theorem cat_copies_unified_trial (programs : Programs) (chunkSize : Int) (host : Host) : ∃ t,
    (⟨⟨"cat", ["a"], .into "g"⟩, []⟩ : Pipeline).execute ⟨Builtin.run, programs, chunkSize, host⟩
      trialShell = .ok Bool.true t ∧ t.world.read "g" = .ok (Text.encode "x\ny") := by
  have hcopies := cat_copies_unified programs chunkSize host
  obtain ⟨u, hu⟩ := hcopies.opens trialShell "g" ["g"] rfl (by decide) offers_trialShell
  obtain ⟨t, ht, hread, -, -⟩ := hcopies.joins trialShell "g" ["g"] u [("a", "x\r\ny")] hu
    (List.cons_ne_nil _ _) (List.forall_mem_singleton.mpr hasFile_trialShell)
  have hjoin : String.join ([("a", "x\r\ny")].map fun file => Text.unifyLines file.2) =
      "x\ny" := by
    decide
  rw [hjoin] at hread
  exact ⟨t, ht, hread⟩

end Builtin

end PipelineShell
