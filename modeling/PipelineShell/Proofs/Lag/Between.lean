import PipelineShell.Proofs.Lag.Stages

/-! What holds of a job between its stages, as long as none of them is a process: no redirection has
a file open, and what is pending is no pipe. -/

namespace PipelineShell

open Attempt

namespace Shell

variable {τ α : Type} {s t : Shell τ}

/-- A stream that had no file has none. -/
def Unopened (s t : Shell τ) : Prop :=
  ∀ stream, s.file stream = none → t.file stream = none

instance : IsPreorder (Shell τ) Unopened where
  refl _ _ := id
  trans _ _ _ h h' stream := h' stream ∘ h stream

theorem unopened_onFile (stream : Stream) (step : TextWriter.Writing Unit) :
    Keeps Unopened (onFile stream step : Shell.Step τ Unit) := by
  intro s other hnone
  cases hf : s.file stream with
  | none => rwa [final_of_ok (onFile_of_none hf step)]
  | some w =>
    have hne : other ≠ stream := by
      rintro rfl
      simp [hnone] at hf
    have hset : ∀ (t : FileTree) (v : TextWriter),
        ((s.setTree t).setFile stream (some v)).file other = none := by
      intro t v
      rw [file_setFile_of_ne hne]
      cases other <;> exact hnone
    unfold final
    rw [onFile_of_some hf]
    cases step (w, s.world.tree) <;> exact hset _ _

theorem unopened_writeTo (o : Outlet) (text : String) :
    Keeps Unopened (writeTo o text : Shell.Step τ Unit) := by
  cases o with
  | file stream => exact unopened_onFile stream _
  | full atOnce =>
    intro s stream h
    obtain ⟨waiting, hfinal⟩ := exists_waiting atOnce text s
    rw [hfinal]
    cases stream <;> exact h
  | _ => exact keeps_modify fun s stream h => by cases stream <;> exact h

theorem unopened_readAll : Keeps Unopened (readAll : Shell.Step τ String) := by
  intro s stream h
  rw [final_readAll]
  cases s.wiring.stdin <;> cases stream <;> exact h

theorem Reaches.unopened (h : Reaches Roams s t) : Unopened s t := by
  obtain ⟨said, h⟩ := h
  refine h.keeps (fun s stream text => unopened_writeTo (s.wiring.outlet stream) text s)
    unopened_readAll fun s t h stream hnone => ?_
  rw [h]
  cases stream <;> exact hnone

theorem unopened_bound {step : Shell.Step τ α} (h : Keeps Unopened step)
    (change : Wiring → Wiring) : Keeps Unopened (bound change step) := by
  intro s stream hnone
  have hs := h { s with wiring := change s.wiring } stream (by cases stream <;> exact hnone)
  rw [final_bound]
  cases stream <;> exact hs

theorem file_openTarget (path : String) (append : Bool) (s : Shell τ) (stream : Stream) :
    ((openTarget path append).final s).file stream = s.file stream := by
  unfold final openTarget
  cases FileTree.openTarget s.world.dir path append s.world.tree <;> cases stream <;> rfl

theorem unopened_toDestination {step : Shell.Step τ α} (h : Keeps Unopened step) (stream : Stream)
    (d : Destination) : Keeps Unopened (toDestination stream d step) := by
  intro s other hnone
  cases hd : d.target with
  | none =>
    simp only [toDestination, hd]
    exact h s other hnone
  | some path =>
    simp only [toDestination, hd]
    have hclosed : ∀ t : Shell τ, (closeFile stream).final t =
        ((onFile stream TextWriter.close).final t).setFile stream none := by
      intro t
      rw [closeFile, final_ensure]
      rfl
    have hopened : ∀ place (t : Shell τ), t.file other = none →
        ((step.ensure (closeFile stream)).final
          (t.setFile stream (some (.start place d.append)))).file other = none := by
      intro place t ht
      rw [final_ensure, hclosed]
      by_cases ho : other = stream
      · rw [ho, file_setFile_self]
      · rw [file_setFile_of_ne ho]
        refine unopened_onFile stream _ _ other (h _ other ?_)
        rwa [file_setFile_of_ne ho]
    have hfile := (file_openTarget path d.append s other).trans hnone
    cases hopen : openTarget path d.append s with
    | error f t =>
      rw [final_of_error hopen] at hfile
      rwa [final_bind_of_error hopen]
    | ok place t =>
      rw [final_of_ok hopen] at hfile
      rw [final_bind_of_ok hopen, final_bind_of_ok (modify_apply _ t)]
      exact hopened place t hfile

theorem unopened_reported {e : Engine τ} (he : e.OnlyRoams) (tag : τ) (c : Command) :
    Keeps Unopened ((e.handler tag c.args).handle (reportAs c.name)) := by
  refine Keeps.handle (fun s => (he tag c.args s).unopened) fun f y hy => ?_
  obtain ⟨-, rfl⟩ := reportAs_eq_some.mp hy
  exact (keeps_get fun s => ((unopened_writeTo _ _).bind fun _ => unopened_writeTo _ "\n") s).bind
    fun _ => keeps_pure _

theorem unopened_invoke {e : Engine τ} (he : e.OnlyRoams) (tag : τ) (c : Command) :
    Keeps Unopened (invoke e tag c) := by
  have hflush : Keeps Unopened (do flush (← get).wiring.stdout : Shell.Step τ Unit) := by
    refine keeps_get fun s => ?_
    cases s.wiring.stdout with
    | file stream => exact unopened_onFile stream _ s
    | full atOnce => exact (final_flush_full atOnce s).symm ▸ refl_of Unopened s
    | _ => exact keeps_pure _ s
  refine unopened_toDestination (unopened_toDestination (unopened_bound ?_ _) _ _) _ _
  exact (unopened_reported he tag c).ensure hflush

end Shell

namespace Job

open Shell

variable {e : Engine CommandTag} {j k : Job CommandTag} {c : Command} {cs : List Command}

/-- What holds of a job between its stages. -/
structure Between (j : Job CommandTag) : Prop where
  numbered : j.Numbered
  alone : j.processes = []
  wiring : j.shell.wiring = .own
  unopened : ∀ stream, j.shell.file stream = none
  still : ∀ pipe pieces, j.pending ≠ .stream pipe pieces

/-- A stage without a name leaves a text, or else what was pending. -/
theorem of_runEmpty (hj : j.Between) {r : Redirection} (h : runEmpty e r j = .ok () k) :
    (∃ t, k.shell = j.shell.setTree t) ∧ k.processes = j.processes ∧
      (k.pending = j.pending ∨ k.pending = .text "") := by
  rw [runEmpty_apply] at h
  cases herr : openHeld r.stderr j.shell with
  | error f s =>
    rw [herr] at h
    cases h
  | ok err s =>
    obtain ⟨_, u, -, -, rfl⟩ := openHeld_eq_ok.mp herr
    cases hout : openHeld r.stdout (j.shell.setTree u) with
    | error f t => simp [herr, hout] at h
    | ok out t =>
      obtain ⟨place, u', -, rfl, rfl⟩ := openHeld_eq_ok.mp hout
      simp only [herr, hout] at h
      cases place with
      | none =>
        cases h
        refine ⟨⟨u', by rw [hold_shell]; rfl⟩, by simp, .inl ?_⟩
        rw [hold_pending, hold_pending]
      | some place =>
        rw [Option.map_some, Option.map_some,
          takeIn_hold (hj.numbered.hold _ _) (by simpa using hj.still)] at h
        split at h
        · cases h
          exact ⟨⟨_, by rw [hold_shell]; rfl⟩, by simp, .inr rfl⟩
        · cases h

theorem between_of_runStage (he : e.handler = Session.runCommand)
    (hb : c.isEmpty = false → j.shell.registry.isBuiltin c.name = true) (hj : j.Between)
    (h : runStage e c false j = .ok () k) : k.Between ∧
      ((∃ text, j.pending = .text text) ∨ c.isEmpty = false → ∃ text, k.pending = .text text) := by
  have hsteady := (steady_runStage c false).ok h
  cases hc : c.isEmpty with
  | true =>
    rw [runStage_of_isEmpty hc] at h
    obtain ⟨⟨t, ht⟩, halone, hp⟩ := of_runEmpty hj h
    refine ⟨⟨hsteady.numbered hj.numbered, halone.trans hj.alone, hsteady.wiring.trans hj.wiring,
      fun stream => ?_, ?_⟩, ?_⟩
    · have hnone := hj.unopened stream
      rw [ht]
      cases stream <;> exact hnone
    · rcases hp with hp | hp <;> simp [hp, hj.still]
    · rcases hp with hp | hp <;> simp [hp]
  | false =>
    obtain ⟨tag, htag⟩ := resolve_of_isBuiltin (hb hc)
    rw [runStage_of_resolve hc (hb hc) htag, runBuiltin_apply] at h
    have hinvoke := unopened_invoke (Session.onlyRoams_of_handler he) tag c (j.builtinShell false)
    split at h
    · next b u hu =>
      cases h
      rw [final_of_ok hu] at hinvoke
      refine ⟨⟨hsteady.numbered hj.numbered, hj.alone, hj.wiring, fun stream => ?_, nofun⟩,
        fun _ => ⟨_, rfl⟩⟩
      have hnone := hj.unopened stream
      have hnone' := hinvoke stream (by cases stream <;> exact hnone)
      cases stream <;> exact hnone'
    · cases h

theorem between_of_passing (he : e.handler = Session.runCommand)
    (hb : ∀ c ∈ cs, c.isEmpty = false → j.shell.registry.isBuiltin c.name = true)
    (hj : j.Between) (h : passing e cs j = .ok () k) :
    k.Between ∧ k.shell.registry = j.shell.registry ∧
      ((∃ text, j.pending = .text text) ∨ (∃ c ∈ cs, c.isEmpty = false) →
        ∃ text, k.pending = .text text) := by
  induction cs generalizing j with
  | nil =>
    cases h
    refine ⟨hj, rfl, ?_⟩
    rintro (h | ⟨c, hc, -⟩)
    · exact h
    · cases hc
  | cons c cs ih =>
    obtain ⟨_, i, hstage, hrest⟩ := bind_eq_ok.mp h
    obtain ⟨hi, htext⟩ := between_of_runStage he (hb c (by simp)) hj hstage
    have hregistry := registry_of_runStage he hstage
    obtain ⟨hk, hsame, htext'⟩ := ih (fun d hd => hregistry ▸ hb d (by simp [hd])) hi hrest
    refine ⟨hk, hsame.trans hregistry, fun hor => htext' ?_⟩
    rcases hor with h | ⟨d, hd, hname⟩
    · exact .inl (htext (.inl h))
    · rcases List.mem_cons.mp hd with rfl | hd
      · exact .inl (htext (.inr hname))
      · exact .inr ⟨d, hd, hname⟩

end Job

end PipelineShell
