import PipelineShell.Proofs.Conduct.Effects
import PipelineShell.Proofs.Debts
import PipelineShell.Proofs.Lag.Writers
import PipelineShell.Proofs.Touching.Trees
import PipelineShell.Proofs.Writers.Steps

/-! What a builtin touches in the tree. It writes to files that are open for it, and these are its
targets: as long as they are the only files that the wiring leads to, nothing else is touched. -/

namespace PipelineShell

open Attempt FileTree

variable {W : Location → String → Prop}

section

variable {dir : Location} {d : Destination} {t u : FileTree}

theorem isSome_of_openIn {place : Option Location} (h : d.openIn dir t = .ok place u) :
    d.target.isSome = place.isSome := by
  unfold Destination.openIn at h
  cases hd : d.target with
  | none =>
    rw [hd] at h
    cases h
    rfl
  | some path =>
    rw [hd] at h
    obtain ⟨_, _, -, h⟩ := bind_eq_ok.mp h
    cases h
    rfl

variable (hW : ∀ path, d.target = some path → W dir path)

include hW

theorem touches_openIn : Keeps (Touches W) (d.openIn dir) := by
  unfold Destination.openIn
  cases hd : d.target with
  | none => exact keeps_pure _
  | some path => exact (touches_openTarget (hW path hd) d.append).bind fun _ => keeps_pure _

theorem owned_of_openIn {place : Location} (h : d.openIn dir t = .ok (some place) u) :
    Owned W u place := by
  unfold Destination.openIn at h
  cases hd : d.target with
  | none =>
    rw [hd] at h
    cases h
  | some path =>
    rw [hd] at h
    obtain ⟨_, _, hopen, h⟩ := bind_eq_ok.mp h
    cases h
    exact owned_of_openTarget (hW path hd) hopen

end

namespace BlockWriter

/-- The file is where it was. If it is an open target, nothing but targets has been touched. -/
structure TouchesOnly (W : Location → String → Prop) (p q : BlockWriter × FileTree) : Prop where
  place : q.1.place = p.1.place
  touches : Owned W p.2 p.1.place → Touches W p.2 q.2

instance : IsPreorder (BlockWriter × FileTree) (TouchesOnly W) where
  refl p := ⟨rfl, fun _ => refl_of (Touches W) p.2⟩
  trans _ _ _ h h' := by
    refine ⟨h'.place.trans h.place, fun howned => ?_⟩
    have htouches := h.touches howned
    exact trans_of (Touches W) htouches (h'.touches (h.place ▸ howned.touches htouches))

theorem touchesOnly_put (bytes : ByteArray) : Keeps (TouchesOnly W) (put bytes) := by
  rintro ⟨w, t⟩
  by_cases hroom : w.HasRoom bytes t
  · rw [final_of_ok (put_eq hroom)]
    refine ⟨moved_place w bytes, fun howned => ?_⟩
    dsimp only [released]
    split
    · exact refl_of (Touches W) t
    · exact howned.touches_revise _
  · obtain ⟨hbytes, hfull⟩ := not_or.mp hroom
    rw [final_of_error (put_of_onFull (Bool.not_eq_true _ ▸ hbytes) (not_not.mp hfull))]
    exact refl_of (TouchesOnly W) (w, t)

theorem carries_touchesOnly : Carries (TouchesOnly W) where
  hold _ := keeps_modify fun p => ⟨rfl, fun _ => refl_of (Touches W) p.2⟩
  put := touchesOnly_put

end BlockWriter

namespace Shell

variable {τ α : Type} {S : Stream → Prop} {s t : Shell τ}

/-- No stream leads to other files than these. -/
def LeadsInto (S : Stream → Prop) (s : Shell τ) : Prop :=
  ∀ other stream, s.wiring.outlet other = .file stream → S stream

/-- These files are open targets. -/
def Owns (W : Location → String → Prop) (S : Stream → Prop) (s : Shell τ) : Prop :=
  ∀ stream w, S stream → s.file stream = some w → Owned W s.world.tree w.place

theorem Owns.of_touches (h : Owns W S s) (hfiles : ∀ stream, t.file stream = s.file stream)
    (htouches : Touches W s.world.tree t.world.tree) : Owns W S t := by
  intro stream w hS hw
  rw [hfiles] at hw
  exact (h stream w hS hw).touches htouches

/-- The wiring is as before. If it leads to open targets, nothing but targets has been touched, and
they are still open. -/
structure TouchesOnly (W : Location → String → Prop) (S : Stream → Prop) (s t : Shell τ) :
    Prop where
  wiring : t.wiring = s.wiring
  touches : LeadsInto S s → Owns W S s → Owns W S t ∧ Touches W s.world.tree t.world.tree

instance : IsPreorder (Shell τ) (TouchesOnly W S) where
  refl s := ⟨rfl, fun _ h => ⟨h, refl_of (Touches W) s.world.tree⟩⟩
  trans s t u h h' := by
    refine ⟨h'.wiring.trans h.wiring, fun hleads howns => ?_⟩
    obtain ⟨howns₁, htouches⟩ := h.touches hleads howns
    have hleads₁ : LeadsInto S t := by
      unfold LeadsInto
      rw [h.wiring]
      exact hleads
    obtain ⟨howns₂, htouches'⟩ := h'.touches hleads₁ howns₁
    exact ⟨howns₂, trans_of (Touches W) htouches htouches'⟩

theorem touchesOnly_of_same (hw : t.wiring = s.wiring)
    (hfiles : ∀ stream, t.file stream = s.file stream) (htree : t.world.tree = s.world.tree) :
    TouchesOnly W S s t := by
  have htouches : Touches W s.world.tree t.world.tree := by
    rw [htree]
    exact refl_of (Touches W) s.world.tree
  exact ⟨hw, fun _ howns => ⟨howns.of_touches hfiles htouches, htouches⟩⟩

theorem touchesOnly_setFile {stream : Stream} {w w' : TextWriter} {u : FileTree} (hS : S stream)
    (hw : s.file stream = some w)
    (h : TextWriter.Below (BlockWriter.TouchesOnly W) (w, s.world.tree) (w', u)) :
    TouchesOnly W S s ((s.setTree u).setFile stream (some w')) := by
  have hstay : w'.place = w.place := h.place
  refine ⟨by simp [setTree], fun _ howns => ?_⟩
  have htouches := h.touches (howns stream w hS hw)
  refine ⟨fun other v hother hv => ?_, by simpa [setTree] using htouches⟩
  rw [world_setFile]
  by_cases heq : other = stream
  · subst heq
    rw [file_setFile_self] at hv
    cases hv
    rw [hstay]
    exact (howns other w hS hw).touches htouches
  · rw [file_setFile_of_ne heq] at hv
    have hv' : s.file other = some v := by cases other <;> exact hv
    exact (howns other v hother hv').touches htouches

theorem touchesOnly_onFile {stream : Stream} (hS : S stream) {step : TextWriter.Writing Unit}
    (h : Keeps (TextWriter.Below (BlockWriter.TouchesOnly W)) step) :
    Keeps (TouchesOnly W S) (onFile stream step : Shell.Step τ Unit) := by
  intro s
  cases hf : s.file stream with
  | none =>
    rw [final_of_ok (onFile_of_none hf step)]
    exact refl_of (TouchesOnly W S) s
  | some w =>
    have hstep := h (w, s.world.tree)
    unfold Attempt.final at hstep ⊢
    rw [onFile_of_some hf]
    generalize step (w, s.world.tree) = r at hstep ⊢
    cases r <;> exact touchesOnly_setFile hS hf hstep

theorem touchesOnly_writeTo {o : Outlet} (ho : ∀ stream, o = .file stream → S stream)
    (text : String) : Keeps (TouchesOnly W S) (writeTo o text : Shell.Step τ Unit) := by
  cases o with
  | file stream =>
    have hwrite := TextWriter.below_write (BlockWriter.carries_touchesOnly (W := W)) text
    exact touchesOnly_onFile (ho stream rfl) hwrite
  | full atOnce =>
    intro s
    obtain ⟨waiting, hfinal⟩ := exists_waiting atOnce text s
    rw [hfinal]
    exact touchesOnly_of_same rfl (fun stream => by cases stream <;> rfl) rfl
  | _ =>
    exact keeps_modify fun s =>
      touchesOnly_of_same rfl (fun stream => by cases stream <;> rfl) rfl

theorem touchesOnly_flush {o : Outlet} (ho : ∀ stream, o = .file stream → S stream) :
    Keeps (TouchesOnly W S) (flush o : Shell.Step τ Unit) := by
  cases o with
  | file stream =>
    exact touchesOnly_onFile (ho stream rfl)
      (TextWriter.below_flush (BlockWriter.carries_touchesOnly (W := W)))
  | full atOnce => exact fun s => (final_flush_full atOnce s).symm ▸ refl_of (TouchesOnly W S) s
  | _ => exact keeps_pure _

theorem TouchesOnly.of_leadsInto (hw : t.wiring = s.wiring)
    (h : LeadsInto S s → TouchesOnly W S s t) : TouchesOnly W S s t :=
  ⟨hw, fun hleads => (h hleads).touches hleads⟩

theorem touchesOnly_wired (stream : Stream) (text : String) (s : Shell τ) :
    TouchesOnly W S s ((writeTo (s.wiring.outlet stream) text).final s) :=
  .of_leadsInto (rests_writeTo _ text s).wiring fun hleads =>
    touchesOnly_writeTo (fun _ => hleads stream _) text s

theorem Reaches.touchesOnly (h : Reaches Roams s t) : TouchesOnly W S s t := by
  obtain ⟨said, hacts⟩ := h
  refine hacts.keeps (fun s stream text => touchesOnly_wired stream text s) (fun s => ?_)
    fun s t h => ?_
  · rw [final_readAll]
    cases s.wiring.stdin <;>
      exact touchesOnly_of_same rfl (fun stream => by cases stream <;> rfl) rfl
  · exact touchesOnly_of_same (by rw [h]) (fun stream => by rw [h]; cases stream <;> rfl)
      (by rw [h])

theorem touchesOnly_called {e : Engine τ} (he : e.OnlyRoams) (tag : τ) (c : Command) :
    Keeps (TouchesOnly W S) (called e tag c) := by
  refine Keeps.ensure (Keeps.handle ?_ fun f y hy => ?_) (keeps_get fun s => ?_)
  · exact fun s => (he tag c.args s).touchesOnly
  · obtain ⟨-, rfl⟩ := reportAs_eq_some.mp hy
    exact ((keeps_complain _).mono fun _ _ => Reaches.touchesOnly).bind fun _ => keeps_pure _
  · refine .of_leadsInto (keeps_flush s.wiring.stdout s).wiring fun hleads => ?_
    exact touchesOnly_flush (fun _ => hleads .stdout _) s

theorem touchesOnly_bound {r : Redirection} {step : Shell.Step τ α}
    (hr : ∀ stream, (r.get stream).target.isSome = true → S stream)
    (h : Keeps (TouchesOnly W S) step) : Keeps (TouchesOnly W S) (bound (rewire r) step) := by
  intro s
  rw [final_bound]
  refine ⟨rfl, fun hleads howns => ?_⟩
  have hrewired : LeadsInto S { s with wiring := rewire r s.wiring } := by
    intro other stream hother
    have hplain := hleads other stream
    cases other <;> (simp only [rewire, Wiring.outlet] at hother hplain; split at hother)
    · cases hother
      exact hr .stdout ‹_›
    · exact hplain hother
    · cases hother
      exact hr .stderr ‹_›
    · exact hplain hother
  obtain ⟨howns', htouches⟩ := (h _).touches hrewired
    (howns.of_touches (fun stream => by cases stream <;> rfl) (refl_of (Touches W) _))
  exact ⟨howns'.of_touches (fun stream => by cases stream <;> rfl) (refl_of (Touches W) _),
    htouches⟩

theorem touchesOnly_closeDestination {stream : Stream} {d : Destination}
    (hS : d.target.isSome = true → S stream) :
    Keeps (TouchesOnly W S) (closeDestination stream d : Shell.Step τ Unit) := by
  unfold closeDestination
  split
  · next hd =>
    refine (touchesOnly_onFile (hS hd)
      (TextWriter.below_close (BlockWriter.carries_touchesOnly (W := W)))).ensure
        (keeps_modify fun s => ⟨wiring_setFile s stream none, fun _ howns => ?_⟩)
    refine ⟨fun other w hother hw => ?_, by rw [world_setFile]; exact refl_of (Touches W) _⟩
    rw [world_setFile]
    by_cases heq : other = stream
    · subst heq
      rw [file_setFile_self] at hw
      cases hw
    · rw [file_setFile_of_ne heq] at hw
      exact howns other w hother hw
  · exact keeps_pure _

theorem touches_openDestination {stream : Stream} {d : Destination}
    (hW : ∀ path, d.target = some path → W s.world.dir path) :
    Touches W s.world.tree ((openDestination stream d).final s).world.tree ∧
      ∀ t, openDestination stream d s = .ok () t → Owns W S s →
        Owns W (fun other => S other ∨ other = stream ∧ d.target.isSome = true) t := by
  have htouches := touches_openIn hW s.world.tree
  rw [Attempt.final, openDestination_apply]
  cases hopen : d.openIn s.world.dir s.world.tree with
  | error f u =>
    rw [final_of_error hopen] at htouches
    exact ⟨htouches, fun t ht => by cases ht⟩
  | ok place u =>
    rw [final_of_ok hopen] at htouches
    have htree : (s.took stream d place u).world.tree = u := by cases place <;> simp [took, setTree]
    refine ⟨by simpa only [htree] using htouches, fun t ht howns => ?_⟩
    cases ht
    intro other w hother hw
    rw [htree]
    cases place with
    | none =>
      have hS : S other := hother.resolve_right fun h =>
        absurd h.2 (by simp [isSome_of_openIn hopen])
      exact (howns other w hS (by cases other <;> exact hw)).touches htouches
    | some place =>
      by_cases heq : other = stream
      · subst heq
        rw [took, file_setFile_self] at hw
        cases hw
        exact owned_of_openIn hW hopen
      · rw [took, file_setFile_of_ne heq] at hw
        have hw' : s.file other = some w := by cases other <;> exact hw
        exact (howns other w (hother.resolve_right fun h => heq h.1) hw').touches htouches

theorem touchesOnly_toDestination {stream : Stream} {d : Destination} {step : Shell.Step τ α}
    (hW : ∀ path, d.target = some path → W s.world.dir path)
    (h : ∀ t, FilesOnly s t →
      TouchesOnly W (fun other => S other ∨ other = stream ∧ d.target.isSome = true) t
        (step.final t)) :
    TouchesOnly W S s ((toDestination stream d step).final s) := by
  have hopening : Touches W s.world.tree ((openDestination stream d).final s).world.tree ∧
      ∀ t, openDestination stream d s = .ok () t → Owns W S s →
        Owns W (fun other => S other ∨ other = stream ∧ d.target.isSome = true) t :=
    touches_openDestination hW
  have hfiles := keeps_openDestination stream d s
  rw [toDestination_eq]
  cases hopen : openDestination stream d s with
  | error f t =>
    rw [final_of_error hopen] at hopening hfiles
    rw [final_bind_of_error hopen]
    refine ⟨hfiles.wiring, fun _ howns => ⟨?_, hopening.1⟩⟩
    refine howns.of_touches (fun other => ?_) hopening.1
    rw [openDestination_apply] at hopen
    generalize d.openIn s.world.dir s.world.tree = r at hopen
    cases r <;> cases hopen
    cases other <;> rfl
  | ok a t =>
    rw [final_of_ok hopen] at hopening hfiles
    have hclose : Keeps
        (TouchesOnly W fun other => S other ∨ other = stream ∧ d.target.isSome = true)
        (closeDestination stream d : Shell.Step τ Unit) :=
      touchesOnly_closeDestination fun hd => .inr ⟨rfl, hd⟩
    have hstep := trans_of (TouchesOnly W _) (h t hfiles) (hclose _)
    rw [final_bind_of_ok hopen, final_ensure]
    refine ⟨hstep.wiring.trans hfiles.wiring, fun hleads howns => ?_⟩
    have hleads' :
        LeadsInto (fun other => S other ∨ other = stream ∧ d.target.isSome = true) t := by
      intro other stream' hother
      rw [hfiles.wiring] at hother
      exact .inl (hleads other stream' hother)
    obtain ⟨howns', htouches⟩ := hstep.touches hleads' (hopening.2 t hopen howns)
    exact ⟨fun other w hS => howns' other w (.inl hS),
      trans_of (Touches W) hopening.1 htouches⟩

/-- A builtin touches its targets, and what is missing on the way to them. -/
theorem touches_invoke {e : Engine τ} (he : e.OnlyRoams) (tag : τ) {c : Command}
    (hs : ∀ other stream, s.wiring.outlet other ≠ .file stream)
    (hW : ∀ stream path, (c.redirection.get stream).target = some path → W s.world.dir path) :
    Touches W s.world.tree ((invoke e tag c).final s).world.tree := by
  refine ((touchesOnly_toDestination (S := fun _ => False) (hW .stdout) fun t ht =>
    touchesOnly_toDestination (fun path hpath => ?_) fun u hu =>
      touchesOnly_bound (fun stream hstream => ?_) (touchesOnly_called he tag c) u).touches
      (fun other stream h => hs other stream h) nofun).2
  · rw [ht.dir]
    exact hW .stderr path hpath
  · cases stream
    · exact .inl (.inr ⟨rfl, hstream⟩)
    · exact .inr ⟨rfl, hstream⟩

end Shell

end PipelineShell
