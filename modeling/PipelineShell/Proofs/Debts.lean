import PipelineShell.Proofs.Openings
import PipelineShell.Proofs.Writers

/-! What the files of a redirection owe to the full device. A debt shows when the file lets out what
it has, after the builtin or when the file is closed, and then nothing reports it. -/

namespace PipelineShell.Shell

variable {τ α : Type} {s t : Shell τ} {stream : Stream}

/-- The file of the stream is open on the full device. -/
def OnFull (s : Shell τ) (stream : Stream) : Prop :=
  ∃ w, s.file stream = some w ∧ w.OnFull s.world.tree

def Owes (s : Shell τ) (stream : Stream) : Prop :=
  ∃ w, s.file stream = some w ∧ w.Owes s.world.tree

/-- The failure of a file that has no room. -/
def Full (f : Failure) : Prop :=
  f = .fault (.refused .noSpace)

theorem Full.escapes {f : Failure} (h : Full f) : f.Escapes := by
  rintro g rfl
  cases h

/-- The file of the stream is as it was, devices are where they were, and the wiring is the same. -/
structure Spares (stream : Stream) (s t : Shell τ) : Prop where
  file : t.file stream = s.file stream
  devices : ∀ l d, t.world.tree.get? l = some (.device d) ↔ s.world.tree.get? l = some (.device d)
  wiring : t.wiring = s.wiring

instance : IsPreorder (Shell τ) (Spares stream) where
  refl _ := ⟨rfl, fun _ _ => Iff.rfl, rfl⟩
  trans _ _ _ h h' := ⟨h'.file.trans h.file, fun l d => (h'.devices l d).trans (h.devices l d),
    h'.wiring.trans h.wiring⟩

theorem Spares.onFull_iff (h : Spares stream s t) : t.OnFull stream ↔ s.OnFull stream := by
  unfold OnFull
  rw [h.file]
  exact exists_congr fun w => and_congr_right fun _ => h.devices w.file.place .full

theorem Spares.owes_iff (h : Spares stream s t) : t.Owes stream ↔ s.Owes stream := by
  unfold Owes
  rw [h.file]
  exact exists_congr fun w => and_congr_right fun _ =>
    and_congr_left fun _ => h.devices w.file.place .full

theorem Owes.onFull (h : s.Owes stream) : s.OnFull stream := by
  obtain ⟨w, hw, ho⟩ := h
  exact ⟨w, hw, ho.1⟩

@[simp] theorem file_setFile_self (s : Shell τ) (stream : Stream) (f : Option TextWriter) :
    (s.setFile stream f).file stream = f := by
  cases stream <;> rfl

theorem file_setFile_of_ne {other : Stream} (h : stream ≠ other) (s : Shell τ)
    (f : Option TextWriter) : (s.setFile other f).file stream = s.file stream := by
  cases stream <;> cases other <;> first | rfl | exact (h rfl).elim

@[simp] theorem world_setFile (s : Shell τ) (stream : Stream) (f : Option TextWriter) :
    (s.setFile stream f).world = s.world := by
  cases stream <;> rfl

@[simp] theorem wiring_setFile (s : Shell τ) (stream : Stream) (f : Option TextWriter) :
    (s.setFile stream f).wiring = s.wiring := by
  cases stream <;> rfl

theorem onFile_of_some {w : TextWriter} (h : s.file stream = some w)
    (step : TextWriter.Writing Unit) : onFile stream step s =
      match step (w, s.world.tree) with
      | .ok _ (w, t) => .ok () ((s.setTree t).setFile stream (some w))
      | .error e (w, t) => .error (.fault e) ((s.setTree t).setFile stream (some w)) := by
  simp only [onFile, h]
  rfl

theorem onFile_of_none (h : s.file stream = none) (step : TextWriter.Writing Unit) :
    onFile stream step s = .ok () s := by
  simp only [onFile, h]

theorem onFile_fails_iff {step : TextWriter.Writing Unit} (hstep : Attempt.Throws NoRoom step) :
    Attempt.Fails Failure.Escapes (onFile stream step) s ↔
      ∃ w, s.file stream = some w ∧ Attempt.Fails NoRoom step (w, s.world.tree) := by
  cases hf : s.file stream with
  | none => simpa using Attempt.not_fails_of_ok (onFile_of_none hf step)
  | some w =>
    unfold Attempt.Fails
    rw [onFile_of_some hf]
    cases hw : step (w, s.world.tree) with
    | ok a p => simp [hw]
    | error e p =>
      exact ⟨fun _ => ⟨w, rfl, e, p, hw, hstep _ _ _ hw⟩, fun _ => ⟨.fault e, _, rfl, nofun⟩⟩

theorem throws_onFile (stream : Stream) {step : TextWriter.Writing Unit}
    (hstep : Attempt.Throws NoRoom step) :
    Attempt.Throws Full (onFile stream step : Shell.Step τ Unit) := by
  intro s e t h
  cases hf : s.file stream with
  | none =>
    rw [onFile_of_none hf] at h
    cases h
  | some w =>
    rw [onFile_of_some hf] at h
    cases hw : step (w, s.world.tree) with
    | ok a p =>
      rw [hw] at h
      cases h
    | error f p =>
      rw [hw] at h
      cases h
      exact congrArg Failure.fault (hstep _ _ _ hw)

theorem spares_onFile {other : Stream} (h : stream ≠ other) {step : TextWriter.Writing Unit}
    (hstep : Attempt.Keeps (Stays TextWriter.place) step) :
    Attempt.Keeps (Spares stream) (onFile other step : Shell.Step τ Unit) := by
  intro s
  cases hf : s.file other with
  | none =>
    rw [Attempt.final_of_ok (onFile_of_none hf step)]
    exact refl_of (Spares stream) s
  | some w =>
    have hk := hstep (w, s.world.tree)
    unfold Attempt.final at hk ⊢
    rw [onFile_of_some hf]
    cases hw : step (w, s.world.tree) with
    | ok a p =>
      rw [hw] at hk
      exact ⟨file_setFile_of_ne h _ _, by simpa [setTree] using hk.2, by simp [setTree]⟩
    | error f p =>
      rw [hw] at hk
      exact ⟨file_setFile_of_ne h _ _, by simpa [setTree] using hk.2, by simp [setTree]⟩

/-- The file of the stream is on the full device if and only if it was before. -/
def SameRoom (stream : Stream) (s t : Shell τ) : Prop :=
  t.OnFull stream ↔ s.OnFull stream

instance : IsPreorder (Shell τ) (SameRoom stream) where
  refl _ := Iff.rfl
  trans _ _ _ h h' := h'.trans h

theorem sameRoom_onFile {step : TextWriter.Writing Unit}
    (hstep : Attempt.Keeps (Stays TextWriter.place) step) :
    Attempt.Keeps (SameRoom stream) (onFile stream step : Shell.Step τ Unit) := by
  intro s
  unfold SameRoom
  cases hf : s.file stream with
  | none => rw [Attempt.final_of_ok (onFile_of_none hf step)]
  | some w =>
    have hk := hstep (w, s.world.tree)
    unfold Attempt.final at hk ⊢
    rw [onFile_of_some hf]
    cases hw : step (w, s.world.tree) with
    | ok a p =>
      rw [hw] at hk
      simpa [OnFull, hf, setTree] using TextWriter.onFull_of_stays hk
    | error f p =>
      rw [hw] at hk
      simpa [OnFull, hf, setTree] using TextWriter.onFull_of_stays hk

theorem flush_fails_iff {o : Outlet} (hroom : o.isFull = false) :
    Attempt.Fails Failure.Escapes (flush o) s ↔ ∃ stream, o = .file stream ∧ s.Owes stream := by
  cases o with
  | file stream =>
    have hfail : Attempt.Fails Failure.Escapes (flush (.file stream)) s ↔ s.Owes stream := by
      simp only [flush, onFile_fails_iff TextWriter.throws_flush, TextWriter.flush_fails_iff, Owes]
    simp [hfail]
  | full atOnce => cases hroom
  | _ => simp [flush]

theorem throws_flush (o : Outlet) : Attempt.Throws Full (flush o : Shell.Step τ Unit) := by
  cases o with
  | file stream => exact throws_onFile stream TextWriter.throws_flush
  | full atOnce =>
    intro s f t h
    rw [flush_full_apply] at h
    cases hwaiting : s.waiting.isEmpty <;> rw [hwaiting] at h <;> cases h
    rfl
  | _ => exact Attempt.throws_pure _

theorem spares_flush {o : Outlet} (h : o ≠ .file stream) :
    Attempt.Keeps (Spares stream) (flush o : Shell.Step τ Unit) := by
  cases o with
  | file other => exact spares_onFile (fun he => h (congrArg _ he.symm)) TextWriter.keeps_flush
  | full atOnce => exact fun s => (final_flush_full atOnce s).symm ▸ refl_of (Spares stream) s
  | _ => exact Attempt.keeps_pure _

theorem not_owes_of_flush (h : flush (.file stream) s = .ok () t) : ¬t.Owes stream := by
  rintro ⟨w, hw, -, ho⟩
  cases hf : s.file stream with
  | none =>
    rw [flush, onFile_of_none hf] at h
    cases h
    rw [hf] at hw
    cases hw
  | some w₀ =>
    rw [flush, onFile_of_some hf] at h
    cases hflush : TextWriter.flush (w₀, s.world.tree) with
    | error e p =>
      rw [hflush] at h
      cases h
    | ok a p =>
      rw [hflush] at h
      cases h
      rw [file_setFile_self] at hw
      cases hw
      have hempty := TextWriter.empty_of_flush hflush
      simp [hempty.1, hempty.2] at ho

theorem closeFile_fails_iff : Attempt.Fails Failure.Escapes (closeFile stream) s ↔
    s.Owes stream := by
  unfold closeFile
  rw [Attempt.fails_ensure (Attempt.throws_modify _), onFile_fails_iff TextWriter.throws_close]
  simp only [TextWriter.close_fails_iff, Owes]
  exact or_iff_left (Attempt.not_fails_modify _ _)

theorem throws_closeDestination (stream : Stream) (d : Destination) :
    Attempt.Throws Full (closeDestination stream d : Shell.Step τ Unit) := by
  unfold closeDestination
  split
  · exact (throws_onFile stream TextWriter.throws_close).ensure (Attempt.throws_modify _)
  · exact Attempt.throws_pure _

theorem closeDestination_fails_iff {d : Destination} :
    Attempt.Fails Failure.Escapes (closeDestination stream d) s ↔
      d.target.isSome = true ∧ s.Owes stream := by
  unfold closeDestination
  split
  · next h => simpa [h] using closeFile_fails_iff
  · next h => simp [h]

theorem spares_setFile {other : Stream} (h : stream ≠ other) (f : Option TextWriter) :
    Attempt.Keeps (Spares stream) (modify fun s => s.setFile other f : Shell.Step τ PUnit) :=
  Attempt.keeps_modify fun s =>
    ⟨file_setFile_of_ne h s f, fun _ _ => by rw [world_setFile], wiring_setFile s other f⟩

theorem spares_closeDestination {other : Stream} (h : stream ≠ other) (d : Destination) :
    Attempt.Keeps (Spares stream) (closeDestination other d : Shell.Step τ Unit) := by
  unfold closeDestination
  split
  · exact (spares_onFile h TextWriter.keeps_close).ensure (spares_setFile h none)
  · exact Attempt.keeps_pure _

theorem throws_writeTo (o : Outlet) (text : String) :
    Attempt.Throws Full (writeTo o text : Shell.Step τ Unit) := by
  cases o with
  | file stream => exact throws_onFile stream (TextWriter.throws_write text)
  | full atOnce =>
    intro s f t h
    rw [writeTo_full_apply] at h
    cases hfails : atOnce && !text.isEmpty <;> rw [hfails] at h <;> cases h
    rfl
  | _ => exact Attempt.throws_modify _

theorem not_fails_writeTo {o : Outlet} (hroom : o.isFull = false)
    (h : ∀ stream, o = .file stream → ¬s.OnFull stream) (text : String) :
    ¬Attempt.Fails Failure.Escapes (writeTo o text) s := by
  cases o with
  | file stream =>
    rw [writeTo, onFile_fails_iff (TextWriter.throws_write text)]
    rintro ⟨w, hw, hfail⟩
    exact TextWriter.not_fails_write (fun hf => h stream rfl ⟨w, hw, hf⟩) hfail
  | full atOnce => cases hroom
  | _ => simp [writeTo]

theorem spares_writeTo {o : Outlet} (h : o ≠ .file stream) (text : String) :
    Attempt.Keeps (Spares stream) (writeTo o text : Shell.Step τ Unit) := by
  cases o with
  | file other =>
    exact spares_onFile (fun he => h (congrArg _ he.symm)) (TextWriter.keeps_write text)
  | full atOnce =>
    intro s
    obtain ⟨waiting, hfinal⟩ := exists_waiting atOnce text s
    exact hfinal ▸ ⟨by cases stream <;> rfl, fun _ _ => Iff.rfl, rfl⟩
  | _ => exact Attempt.keeps_modify fun s => ⟨by cases stream <;> rfl, fun _ _ => Iff.rfl, rfl⟩

theorem sameRoom_writeTo (o : Outlet) (text : String) :
    Attempt.Keeps (SameRoom stream) (writeTo o text : Shell.Step τ Unit) := by
  by_cases h : o = .file stream
  · subst h
    exact sameRoom_onFile (TextWriter.keeps_write text)
  · exact fun s => (spares_writeTo h text s).onFull_iff

theorem writeTo_of_onFull (h : s.OnFull stream) {text : String}
    (htext : (Text.encode text).isEmpty = false) :
    Attempt.Fails Failure.Escapes (writeTo (.file stream) text) s ∨
      ((writeTo (.file stream) text).final s).Owes stream := by
  obtain ⟨w, hw, hf⟩ := h
  rcases TextWriter.write_of_onFull hf htext with hfail | ⟨w', t', hok, ho⟩
  · exact .inl ((onFile_fails_iff (TextWriter.throws_write text)).mpr ⟨w, hw, hfail⟩)
  · refine .inr ⟨w', ?_, ?_⟩ <;>
      simp only [Attempt.final, writeTo, onFile_of_some hw, hok, file_setFile_self, world_setFile]
    exact ho

section

variable (m : String)

theorem complain_apply (s : Shell τ) : complain m s =
    (writeTo s.wiring.stderr m >>= fun _ => writeTo s.wiring.stderr "\n") s := rfl

theorem throws_complain : Attempt.Throws Full (complain m : Shell.Step τ Unit) :=
  Attempt.throws_get.bind fun _ => (throws_writeTo _ _).bind fun _ => throws_writeTo _ _

theorem spares_complain (h : s.wiring.stderr ≠ .file stream) :
    Spares stream s ((complain m).final s) :=
  ((spares_writeTo h m).bind fun _ => spares_writeTo h "\n") s

theorem sameRoom_complain :
    Attempt.Keeps (SameRoom stream) (complain m : Shell.Step τ Unit) :=
  Attempt.keeps_get fun s => ((sameRoom_writeTo _ m).bind fun _ => sameRoom_writeTo _ "\n") s

theorem complain_fails_iff : Attempt.Fails Failure.Escapes (complain m) s ↔
    Attempt.Fails Failure.Escapes (writeTo s.wiring.stderr m) s ∨ ∃ t,
      writeTo s.wiring.stderr m s = .ok () t ∧
      Attempt.Fails Failure.Escapes (writeTo s.wiring.stderr "\n") t := by
  have h : Attempt.Fails Failure.Escapes (complain m) s ↔ Attempt.Fails Failure.Escapes
      (writeTo s.wiring.stderr m >>= fun _ => writeTo s.wiring.stderr "\n") s := Iff.rfl
  rw [h, Attempt.fails_bind]
  exact or_congr_right ⟨fun ⟨_, t, ht, hf⟩ => ⟨t, ht, hf⟩, fun ⟨t, ht, hf⟩ => ⟨_, t, ht, hf⟩⟩

theorem not_fails_complain (hroom : s.wiring.stderr.isFull = false)
    (h : ∀ stream, s.wiring.stderr = .file stream → ¬s.OnFull stream) :
    ¬Attempt.Fails Failure.Escapes (complain m) s := by
  rw [complain_fails_iff]
  rintro (hm | ⟨t, ht, hn⟩)
  · exact not_fails_writeTo hroom h m hm
  · refine not_fails_writeTo hroom (fun stream hw hf => h stream hw ?_) "\n" hn
    exact ((sameRoom_writeTo _ m).ok ht).mp hf

theorem complain_of_onFull (hw : s.wiring.stderr = .file stream) (h : s.OnFull stream) :
    Attempt.Fails Failure.Escapes (complain m) s ∨ ((complain m).final s).Owes stream := by
  rw [complain_fails_iff, hw]
  cases ht : writeTo (.file stream) m s with
  | error e t => exact .inl (.inl ⟨e, t, ht, (throws_writeTo _ _ _ _ _ ht).escapes⟩)
  | ok a t =>
    have hroom : SameRoom stream s t := (sameRoom_writeTo _ m).ok ht
    have hend : (Text.encode "\n").isEmpty = false := by decide
    rcases writeTo_of_onFull (hroom.mpr h) hend with hfail | ho
    · exact .inl (.inr ⟨t, rfl, hfail⟩)
    · refine .inr ?_
      have hfinal : (complain m).final s = (writeTo (.file stream) "\n").final t := by
        simp only [Attempt.final, complain_apply, hw, Attempt.bind_of_ok ht]
      rw [hfinal]
      exact ho

end

end PipelineShell.Shell
