import PipelineShell.Proofs.Abort.Causes
import PipelineShell.Proofs.Accumulation.Writers
import PipelineShell.Proofs.Touching.Calls

/-! One place in the tree while a builtin runs. If the output goes there, all that is written to the
output comes behind what was left in the file; if no stream goes there, the place is left alone. -/

namespace PipelineShell

open Attempt FileTree

/-- Of two things, one for the output and one for the errors, the one for this stream. -/
def Stream.pick {α : Type} (stream : Stream) (out err : α) : α :=
  match stream with
  | .stdout => out
  | .stderr => err

def Redirection.openIn (dir : Location) (r : Redirection) :
    FileTree.Change (Option Location × Option Location) := do
  let out ← r.stdout.openIn dir
  let err ← r.stderr.openIn dir
  pure (out, err)

namespace Redirection

variable {r : Redirection} {dir place : Location} {out err : Option Location} {t u : FileTree}

theorem openIn_eq_ok (h : r.openIn dir t = .ok (out, err) u) :
    ∃ v, r.stdout.openIn dir t = .ok out v ∧ r.stderr.openIn dir v = .ok err u := by
  obtain ⟨_, v, hout, hrest⟩ := bind_eq_ok.mp h
  obtain ⟨_, _, herr, hpure⟩ := bind_eq_ok.mp hrest
  cases hpure
  exact ⟨v, hout, herr⟩

theorem isSome_of_openIn (h : r.openIn dir t = .ok (out, err) u) (stream : Stream) :
    (r.get stream).target.isSome = (stream.pick out err).isSome := by
  obtain ⟨v, hout, herr⟩ := openIn_eq_ok h
  cases stream
  · exact PipelineShell.isSome_of_openIn hout
  · exact PipelineShell.isSome_of_openIn herr

theorem spared_of_openIn (h : r.openIn dir t = .ok (out, err) u) (hout : out ≠ some place)
    (herr : err ≠ some place) : Spared place t u := by
  obtain ⟨v, hopen, hopen'⟩ := openIn_eq_ok h
  exact trans_of (Spared place) (Destination.spared_of_openIn hopen hout)
    (Destination.spared_of_openIn hopen' herr)

theorem get?_of_openIn (h : r.openIn dir t = .ok (some place, err) u) (herr : err ≠ some place)
    (ht : Regular place t) : ∃ x, u.get? place =
      some (.file (if r.stdout.append then t.content place else .empty) x) := by
  obtain ⟨v, hout, hopen'⟩ := openIn_eq_ok h
  obtain ⟨path, -, hopen⟩ := Destination.openIn_eq_some hout
  obtain ⟨x, hget⟩ := get?_of_openTarget hopen ht
  rcases Destination.spared_of_openIn hopen' herr with hsame | ⟨hfree, -⟩
  · exact ⟨x, hsame.trans hget⟩
  · rw [hget] at hfree
    cases hfree

end Redirection

namespace Shell

variable {τ α : Type} {place : Location} {base : ByteArray} {text : String} {stream : Stream}
  {s s' t u : Shell τ}

def Avoids (place : Location) (o : Outlet) (s : Shell τ) : Prop :=
  ∀ stream w, o = .file stream → s.file stream = some w → w.place ≠ place

/-- The wiring is as before, the open files are where they were, and so is what is at the place. -/
structure Passes (place : Location) (s t : Shell τ) : Prop where
  wiring : t.wiring = s.wiring
  placed : ∀ stream, (t.file stream).map TextWriter.place = (s.file stream).map TextWriter.place
  entry : t.world.tree.get? place = s.world.tree.get? place

instance : IsPreorder (Shell τ) (Passes place) where
  refl _ := ⟨rfl, fun _ => rfl, rfl⟩
  trans _ _ _ h h' := ⟨h'.wiring.trans h.wiring,
    fun stream => (h'.placed stream).trans (h.placed stream), h'.entry.trans h.entry⟩

theorem Passes.avoids {o : Outlet} (h : Passes place s t) (hs : s.Avoids place o) :
    t.Avoids place o := by
  intro stream w ho hw
  have hplaced := h.placed stream
  rw [hw] at hplaced
  obtain ⟨v, hv, hsame⟩ := Option.map_eq_some_iff.mp hplaced.symm
  rw [← hsame]
  exact hs stream v ho hv

theorem Passes.outlets (h : Passes place s t)
    (hs : ∀ stream, s.Avoids place (s.wiring.outlet stream)) (stream : Stream) :
    t.Avoids place (t.wiring.outlet stream) := by
  rw [h.wiring]
  exact h.avoids (hs stream)

theorem avoids_of_file {o : Outlet} (h : ∀ stream, o = .file stream → t.file stream = s.file stream)
    (hs : s.Avoids place o) : t.Avoids place o :=
  fun stream w ho hw => hs stream w ho (h stream ho ▸ hw)

theorem passes_of_same (hw : t.wiring = s.wiring) (hfiles : ∀ stream, t.file stream = s.file stream)
    (htree : t.world.tree = s.world.tree) : Passes place s t :=
  ⟨hw, fun stream => by rw [hfiles], by rw [htree]⟩

theorem passes_onFile (hs : s.Avoids place (.file stream)) {step : TextWriter.Writing Unit}
    (hstep : Keeps (TextWriter.Below (BlockWriter.Passes place)) step) :
    Passes place s ((onFile stream step).final s) := by
  cases hf : s.file stream with
  | none =>
    rw [final_of_ok (onFile_of_none hf step)]
    exact refl_of (Passes place) s
  | some w =>
    have hpasses : ∀ w' u, TextWriter.Below (BlockWriter.Passes place) (w, s.world.tree) (w', u) →
        Passes place s ((s.setTree u).setFile stream (some w')) := by
      intro w' u h
      have hstays : w'.place = w.place := h.stays
      refine ⟨by simp [setTree], fun other => ?_, ?_⟩
      · by_cases heq : other = stream
        · subst heq
          rw [file_setFile_self, hf, Option.map_some, Option.map_some, hstays]
        · rw [file_setFile_of_ne heq]
          cases other <;> rfl
      · rw [world_setFile]
        exact h.entry (hs stream w rfl hf)
    have hkept := hstep (w, s.world.tree)
    unfold Attempt.final at hkept ⊢
    rw [onFile_of_some hf]
    generalize step (w, s.world.tree) = r at hkept ⊢
    cases r <;> exact hpasses _ _ hkept

theorem passes_writeTo {o : Outlet} (hs : s.Avoids place o) (more : String) :
    Passes place s ((writeTo o more).final s) := by
  cases o with
  | file stream =>
    exact passes_onFile hs (TextWriter.below_write BlockWriter.carries_passes more)
  | full atOnce =>
    obtain ⟨waiting, hfinal⟩ := exists_waiting atOnce more s
    rw [hfinal]
    exact passes_of_same rfl (fun stream => by cases stream <;> rfl) rfl
  | _ => exact passes_of_same rfl (fun stream => by cases stream <;> rfl) rfl

theorem passes_flush {o : Outlet} (hs : s.Avoids place o) :
    Passes place s ((flush o).final s) := by
  cases o with
  | file stream => exact passes_onFile hs (TextWriter.below_flush BlockWriter.carries_passes)
  | full atOnce => exact (final_flush_full atOnce s).symm ▸ refl_of (Passes place) s
  | _ => exact refl_of (Passes place) s

theorem passes_readAll (s : Shell τ) : Passes place s (readAll.final s) := by
  rw [final_readAll]
  cases s.wiring.stdin <;> exact passes_of_same rfl (fun stream => by cases stream <;> rfl) rfl

theorem Roams.passes (h : Roams s t) : Passes place s t := by
  unfold Roams at h
  exact passes_of_same (by rw [h]) (fun stream => by rw [h]; cases stream <;> rfl) (by rw [h])

/-- A builtin of which no stream leads to the place leaves it alone. -/
theorem Acts.passes {said : List (Stream × String)} (h : Acts Roams s said t)
    (hs : ∀ stream, s.Avoids place (s.wiring.outlet stream)) : Passes place s t := by
  induction h with
  | rest s => exact refl_of (Passes place) s
  | write stream more _ ih =>
    have hstep := passes_writeTo (hs stream) more
    exact trans_of (Passes place) hstep (ih (hstep.outlets hs))
  | @read s t said _ ih =>
    have hstep : Passes place s _ := passes_readAll s
    exact trans_of (Passes place) hstep (ih (hstep.outlets hs))
  | change hroams _ ih =>
    have hstep : Passes place _ _ := hroams.passes
    exact trans_of (Passes place) hstep (ih (hstep.outlets hs))

/-- The output goes to a file at the place, which has taken a text since it was opened, and the
errors go elsewhere. -/
structure Gains (place : Location) (base : ByteArray) (text : String) (s : Shell τ) : Prop where
  stdout : s.wiring.stdout = .file .stdout
  apart : s.wiring.stderr ≠ .file .stdout
  avoids : s.Avoids place s.wiring.stderr
  writer : ∃ w, s.outFile = some w ∧
    TextWriter.Extends place base (Text.encode text) (w, s.world.tree)

namespace Gains

variable (h : Gains place base text s)

include h

theorem of_passes (hpasses : Passes place s t) (hfile : t.outFile = s.outFile) :
    Gains place base text t where
  stdout := hpasses.wiring ▸ h.stdout
  apart := hpasses.wiring ▸ h.apart
  avoids := hpasses.avoids (hpasses.wiring ▸ h.avoids)
  writer := by
    obtain ⟨w, hw, hextends⟩ := h.writer
    exact ⟨w, hfile.trans hw, hextends.of_entry hpasses.entry⟩

theorem setFile {w : TextWriter} {v : FileTree} {more : String}
    (hextends : TextWriter.Extends place base (Text.encode more) (w, v)) :
    Gains place base more ((s.setTree v).setFile .stdout (some w)) where
  stdout := h.stdout
  apart := h.apart
  avoids := avoids_of_file (fun stream hstream => by
    cases stream with
    | stdout => exact absurd hstream h.apart
    | stderr => rfl) h.avoids
  writer := ⟨w, rfl, hextends⟩

theorem write (more : String) : ∃ t, writeTo s.wiring.stdout more s = .ok () t ∧
    Gains place base (text ++ more) t := by
  obtain ⟨w, hw, hextends⟩ := h.writer
  obtain ⟨⟨v, tree⟩, hwrite, hmore⟩ := hextends.write more
  have hfile : s.file .stdout = some w := hw
  rw [← Text.encode_append] at hmore
  refine ⟨_, ?_, h.setFile hmore⟩
  rw [h.stdout, writeTo, onFile_of_some hfile, hwrite]

theorem writeErrors (more : String) :
    Gains place base text ((writeTo s.wiring.stderr more).final s) :=
  h.of_passes (passes_writeTo h.avoids more) (spares_writeTo h.apart more s).file

theorem acts {said : List (Stream × String)} (hacts : Acts Roams s said t) :
    Gains place base (text ++ told .stdout said) t := by
  induction hacts generalizing text with
  | rest s => simpa [told] using h
  | write stream more _ ih =>
    cases stream with
    | stdout =>
      obtain ⟨t, ht, hgains⟩ := h.write more
      have hih := ih (by rw [Wiring.outlet, final_of_ok ht]; exact hgains)
      simpa [told, String.append_assoc] using hih
    | stderr =>
      have hih := ih (h.writeErrors more)
      simpa [told] using hih
  | @read s t said _ ih =>
    refine ih (h.of_passes (passes_readAll s) ?_)
    rw [final_readAll]
    cases s.wiring.stdin <;> rfl
  | change hroams _ ih =>
    refine ih (h.of_passes hroams.passes ?_)
    unfold Roams at hroams
    rw [hroams]

theorem flush : ∃ t, Shell.flush s.wiring.stdout s = .ok () t ∧ Gains place base text t := by
  obtain ⟨w, hw, hextends⟩ := h.writer
  obtain ⟨⟨v, tree⟩, hflush, hsame⟩ := hextends.flush
  have hfile : s.file .stdout = some w := hw
  refine ⟨_, ?_, h.setFile hsame⟩
  rw [h.stdout, Shell.flush, onFile_of_some hfile, hflush]

end Gains

section

variable {e : Engine τ} {tag : τ} {c : Command} {b : Bool}

/-- What a builtin does is followed by the report of its failure, which goes to the errors, and by
letting out its output. -/
theorem exists_reported (h : called e tag c s = .ok b t) : ∃ v reported,
    Acts Roams ((e.handler tag c.args).final s) reported v ∧ told .stdout reported = "" ∧
      Shell.flush (v.wiring.outlet .stdout) v = .ok () t := by
  obtain ⟨v, hcall, hflush⟩ := ensure_eq_ok.mp h
  rcases handle_eq_ok.mp hcall with hok | ⟨f, w, y, hfail, hy, hreport⟩
  · refine ⟨v, [], ?_, rfl, hflush⟩
    rw [final_of_ok hok]
    exact .rest v
  · obtain ⟨-, rfl⟩ := reportAs_eq_some.mp hy
    obtain ⟨_, _, hsaid, hpure⟩ := bind_eq_ok.mp hreport
    cases hpure
    have hreported : Acts Roams _ _ v := acts_printLine hsaid
    rw [final_of_error hfail]
    exact ⟨v, _, hreported, by simp [told], hflush⟩

theorem Gains.called {said : List (Stream × String)} (h : Gains place base "" s)
    (hacts : Acts Roams s said ((e.handler tag c.args).final s))
    (hcalled : called e tag c s = .ok b t) : Gains place base (told .stdout said) t := by
  obtain ⟨v, reported, hreported, hnothing, hflush⟩ := exists_reported hcalled
  have hgains := (h.acts hacts).acts hreported
  rw [String.empty_append, hnothing, String.append_empty] at hgains
  obtain ⟨t', ht', hlast⟩ := hgains.flush
  rw [Wiring.outlet, ht'] at hflush
  cases hflush
  exact hlast

theorem passes_called (he : e.OnlyRoams) (hs : ∀ stream, s.Avoids place (s.wiring.outlet stream))
    (h : called e tag c s = .ok b t) : Passes place s t := by
  obtain ⟨said, hacts⟩ := he tag c.args s
  obtain ⟨v, reported, hreported, -, hflush⟩ := exists_reported h
  have hhandler := hacts.passes hs
  have hv := trans_of (Passes place) hhandler (hreported.passes (hhandler.outlets hs))
  have hlast := passes_flush (hv.outlets hs .stdout)
  rw [final_of_ok hflush] at hlast
  exact trans_of (Passes place) hv hlast

end

section

variable {d : Destination} {r : Redirection}

/-- The targets have been opened at some places, and the files of the streams are there. -/
structure Opened (r : Redirection) (out err : Option Location) (s s' : Shell τ) : Prop where
  wiring : s'.wiring = s.wiring
  tree : r.openIn s.world.dir s.world.tree = .ok (out, err) s'.world.tree
  files : ∀ stream l, stream.pick out err = some l →
    s'.file stream = some (.start l (r.get stream).append)

theorem exists_opened (h : openTargets r s = .ok () s') :
    ∃ out err, Opened r out err s s' := by
  obtain ⟨_, s₁, hout, herr⟩ := bind_eq_ok.mp h
  rw [openDestination_apply] at hout herr
  cases hin : r.stdout.openIn s.world.dir s.world.tree with
  | error f v =>
    rw [hin] at hout
    cases hout
  | ok out v =>
    rw [hin] at hout
    cases hout
    rw [took_dir, took_tree] at herr
    cases hin' : r.stderr.openIn s.world.dir v with
    | error f v' =>
      rw [hin'] at herr
      cases herr
    | ok err v' =>
      rw [hin'] at herr
      cases herr
      refine ⟨out, err, ?_, ?_, fun stream l hl => ?_⟩
      · cases out <;> cases err <;> rfl
      · rw [took_tree]
        exact bind_of_ok hin _ |>.trans (bind_of_ok hin' _)
      · cases stream
        · cases hl
          cases err <;> rfl
        · cases hl
          cases out <;> rfl

theorem outlet_rewire (w : Wiring) (stream : Stream) (hd : (r.get stream).target.isSome = true) :
    (rewire r w).outlet stream = .file stream := by
  cases stream <;> exact if_pos hd

theorem outlet_rewire_of_none (w : Wiring) (stream : Stream)
    (hd : (r.get stream).target.isSome = false) : (rewire r w).outlet stream = w.outlet stream := by
  cases stream <;> exact if_neg (Bool.eq_false_iff.mp hd)

theorem Opened.avoids {out err : Option Location} (h : Opened r out err s s')
    (hs : ∀ stream other, s.wiring.outlet stream ≠ .file other) (stream : Stream)
    (hne : stream.pick out err ≠ some place) :
    Avoids place ((rewire r s'.wiring).outlet stream)
      { s' with wiring := rewire r s'.wiring } := by
  intro other w ho hw
  have htarget := Redirection.isSome_of_openIn h.tree stream
  cases hd : (r.get stream).target.isSome with
  | true =>
    rw [outlet_rewire _ stream hd] at ho
    cases ho
    obtain ⟨l, hl⟩ := Option.isSome_iff_exists.mp (htarget ▸ hd)
    have hfile : s'.file stream = some w := by cases stream <;> exact hw
    cases (h.files stream l hl).symm.trans hfile
    exact fun heq => hne (hl.trans (congrArg some heq))
  | false =>
    rw [outlet_rewire_of_none _ stream hd, h.wiring] at ho
    exact absurd ho (hs stream other)

theorem Opened.gains {err : Option Location} (h : Opened r (some place) err s s')
    (hs : ∀ stream other, s.wiring.outlet stream ≠ .file other) (herr : err ≠ some place)
    (hregular : Regular place s.world.tree) :
    Gains place (if r.stdout.append then s.world.tree.content place else .empty) ""
      { s' with wiring := rewire r s'.wiring } where
  stdout := outlet_rewire _ .stdout (Redirection.isSome_of_openIn h.tree .stdout)
  apart hfile := by
    cases hd : r.stderr.target.isSome with
    | true =>
      have herrors := outlet_rewire s'.wiring .stderr hd
      cases herrors.symm.trans hfile
    | false =>
      have herrors := outlet_rewire_of_none s'.wiring .stderr hd
      rw [h.wiring] at herrors
      exact hs .stderr .stdout (herrors.symm.trans (h.wiring ▸ hfile))
  avoids := h.avoids hs .stderr herr
  writer := by
    obtain ⟨x, hget⟩ := Redirection.get?_of_openIn h.tree herr hregular
    refine ⟨_, h.files .stdout place rfl, TextWriter.extends_start hget fun happend => ?_⟩
    rw [show r.stdout.append = false from happend]
    rfl

theorem entry_closeDestination (hs : d.target.isSome = true → s.Avoids place (.file stream)) :
    ((closeDestination stream d).final s).world.tree.get? place = s.world.tree.get? place := by
  unfold closeDestination
  split
  · next hd =>
    have hshut := passes_onFile (hs hd) (TextWriter.below_close BlockWriter.carries_passes)
    rw [closeFile, final_ensure, ← hshut.entry]
    simp [Attempt.final]
  · rfl

theorem entry_closeTargets (herr : r.stderr.target.isSome = true → s.Avoids place (.file .stderr))
    (hout : r.stdout.target.isSome = true → s.Avoids place (.file .stdout))
    (h : closeTargets r s = .ok () u) : u.world.tree.get? place = s.world.tree.get? place := by
  obtain ⟨_, t, hfirst, hsecond⟩ := bind_eq_ok.mp h
  have hentry := entry_closeDestination herr
  have hfile := (spares_closeDestination (show Stream.stdout ≠ .stderr by decide) _).ok hfirst
  rw [final_of_ok hfirst] at hentry
  have hentry' := entry_closeDestination (s := t) fun hd =>
    avoids_of_file (fun stream hstream => by cases hstream; exact hfile.file) (hout hd)
  rw [final_of_ok hsecond] at hentry'
  exact hentry'.trans hentry

/-- When the file is closed, all that it has taken stands behind what was left in it. -/
theorem get?_closeTargets {all : ByteArray} {w : TextWriter}
    (herr : r.stderr.target.isSome = true → s.Avoids place (.file .stderr))
    (hout : r.stdout.target.isSome = true) (hw : s.outFile = some w)
    (hextends : TextWriter.Extends place base all (w, s.world.tree))
    (h : closeTargets r s = .ok () u) :
    ∃ x, u.world.tree.get? place = some (.file (base ++ all) x) := by
  obtain ⟨_, t, hfirst, hsecond⟩ := bind_eq_ok.mp h
  have hentry := entry_closeDestination herr
  have hfile := (spares_closeDestination (show Stream.stdout ≠ .stderr by decide) _).ok hfirst
  rw [final_of_ok hfirst] at hentry
  have hw' : t.file .stdout = some w := hfile.file.trans hw
  obtain ⟨w', v, x, hclose, hget⟩ := (hextends.of_entry hentry).close
  have hshut : closeFile .stdout t =
      .ok () (((t.setTree v).setFile .stdout (some w')).setFile .stdout none) := by
    refine ensure_eq_ok.mpr ⟨(t.setTree v).setFile .stdout (some w'), ?_, rfl⟩
    rw [onFile_of_some hw', hclose]
  rw [closeDestination, if_pos hout, hshut] at hsecond
  cases hsecond
  exact ⟨x, hget⟩

end

section

variable {e : Engine τ} {tag : τ} {c : Command} {b : Bool} {out err : Option Location}
  (he : e.OnlyRoams) (hs : ∀ stream other, s.wiring.outlet stream ≠ .file other)

include he hs

theorem spared_invoke {v : FileTree}
    (hopen : c.redirection.openIn s.world.dir s.world.tree = .ok (out, err) v)
    (hout : out ≠ some place) (herr : err ≠ some place) (h : invoke e tag c s = .ok b u) :
    Spared place s.world.tree u.world.tree := by
  obtain ⟨s', t, htargets, hcalled, hclose⟩ := redirected_eq_ok.mp h
  obtain ⟨out', err', hopened⟩ := exists_opened htargets
  cases hopen.symm.trans hopened.tree
  have houtlets : ∀ stream, Avoids place ((rewire c.redirection s'.wiring).outlet stream)
      { s' with wiring := rewire c.redirection s'.wiring } := by
    intro stream
    refine hopened.avoids hs stream ?_
    cases stream
    · exact hout
    · exact herr
  have hpasses := passes_called he houtlets hcalled
  have hfiles : ∀ stream, (c.redirection.get stream).target.isSome = true →
      Avoids place (.file stream) { t with wiring := s'.wiring } := fun stream hd => by
    have hafter := hpasses.outlets houtlets stream
    rw [hpasses.wiring, outlet_rewire _ stream hd] at hafter
    exact avoids_of_file (fun other _ => by cases other <;> rfl) hafter
  have hentry := entry_closeTargets (hfiles .stderr) (hfiles .stdout) hclose
  exact trans_of (Spared place) (Redirection.spared_of_openIn hopen hout herr)
    (.inl (hentry.trans hpasses.entry))

/-- If the output of a builtin is sent to the place, all that it writes stands behind what was left
in the file. -/
theorem get?_invoke {said : List (Stream × String)} (hregular : Regular place s.world.tree)
    (htargets : openTargets c.redirection s = .ok () s')
    (hopen : c.redirection.openIn s.world.dir s.world.tree = .ok (some place, err) s'.world.tree)
    (herr : err ≠ some place)
    (hacts : Acts Roams { s' with wiring := rewire c.redirection s'.wiring } said
      ((e.handler tag c.args).final { s' with wiring := rewire c.redirection s'.wiring }))
    (h : invoke e tag c s = .ok b u) : ∃ x, u.world.tree.get? place =
      some (.file ((if c.redirection.stdout.append then s.world.tree.content place else .empty) ++
        Text.encode (told .stdout said)) x) := by
  obtain ⟨s'', t, htargets', hcalled, hclose⟩ := redirected_eq_ok.mp h
  cases htargets.symm.trans htargets'
  obtain ⟨out', err', hopened⟩ := exists_opened htargets
  cases hopen.symm.trans hopened.tree
  have hgains := (hopened.gains hs herr hregular).called hacts hcalled
  have hwiring : t.wiring = rewire c.redirection s'.wiring :=
    ((speaks_called he.goesByWiring tag c).ok hcalled).withholds.wiring
  obtain ⟨w, hw, hextends⟩ := hgains.writer
  refine get?_closeTargets (s := { t with wiring := s'.wiring }) (fun hd => ?_)
    (Redirection.isSome_of_openIn hopen .stdout) hw hextends hclose
  have hfile := outlet_rewire s'.wiring .stderr hd
  rw [← hwiring] at hfile
  have hafter := hgains.avoids
  rw [show t.wiring.stderr = .file .stderr from hfile] at hafter
  exact avoids_of_file (fun other _ => by cases other <;> rfl) hafter

/-- From the opening of the target of the output to the end of the builtin, paths lead where they
led. -/
theorem touches_invoke_of_openDestination
    (h : openDestination .stdout c.redirection.stdout s = .ok () t) :
    Touches (fun _ _ => True) t.world.tree ((invoke e tag c).final s).world.tree := by
  obtain ⟨S, hS⟩ : ∃ S : Stream → Prop,
      ∀ other, S other ↔ other = .stdout ∧ c.redirection.stdout.target.isSome = true :=
    ⟨_, fun _ => Iff.rfl⟩
  have hwiring := ((keeps_openDestination _ _).ok h).wiring
  have howns : Owns (fun _ _ => True) S t := fun other w hother =>
    (touches_openDestination (S := fun _ => False) fun _ _ => trivial).2 t h nofun other w
      (.inr ((hS other).mp hother))
  have hstep : TouchesOnly (fun _ _ => True) S t
      ((toDestination .stderr c.redirection.stderr
        (bound (rewire c.redirection) (called e tag c))).final t) := by
    refine touchesOnly_toDestination (fun _ _ => trivial) fun u _ =>
      touchesOnly_bound (fun stream hstream => ?_) (touchesOnly_called he tag c) u
    cases stream
    · exact .inl ((hS .stdout).mpr ⟨rfl, hstream⟩)
    · exact .inr ⟨rfl, hstream⟩
  have hclose : Keeps (TouchesOnly (fun _ _ => True) S)
      (closeDestination .stdout c.redirection.stdout : Shell.Step τ Unit) :=
    touchesOnly_closeDestination fun hd => (hS .stdout).mpr ⟨rfl, hd⟩
  rw [invoke, redirected, toDestination_eq, final_bind_of_ok h, final_ensure]
  refine ((trans_of (TouchesOnly _ S) hstep (hclose _)).touches (fun other stream hother => ?_)
    howns).2
  rw [hwiring] at hother
  exact absurd hother (hs other stream)

/-- If the output of a builtin is sent to the place, the path of the target leads there
afterwards. -/
theorem reach_invoke {path : String} {v : FileTree} (hregular : Regular place s.world.tree)
    (hopen : c.redirection.openIn s.world.dir s.world.tree = .ok (some place, err) v)
    (hpath : c.redirection.stdout.target = some path) (h : invoke e tag c s = .ok b u) :
    ∃ entry, entry.IsFile ∧ u.world.tree.reach s.world.dir path = .ok (place, entry) := by
  obtain ⟨middle, hout, -⟩ := Redirection.openIn_eq_ok hopen
  obtain ⟨path', hpath', htarget⟩ := Destination.openIn_eq_some hout
  cases hpath.symm.trans hpath'
  obtain ⟨x, hget⟩ := get?_of_openTarget htarget hregular
  have hreach := reach_of_openTarget htarget hget ⟨_, x, rfl⟩
  have hopened : openDestination .stdout c.redirection.stdout s =
      .ok () (s.took .stdout c.redirection.stdout (some place) middle) := by
    rw [openDestination_apply, hout]
  have htouches : Touches (fun _ _ => True) _ ((invoke e tag c).final s).world.tree :=
    touches_invoke_of_openDestination he hs hopened
  rw [took_tree, final_of_ok h] at htouches
  obtain ⟨entry, hleads, hkind⟩ := htouches.leads _ _ _ _ hreach
  exact ⟨entry, isFile_of_kind hkind.symm ⟨_, x, rfl⟩, hleads⟩

end

end Shell

end PipelineShell
