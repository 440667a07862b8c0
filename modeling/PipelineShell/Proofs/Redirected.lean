import PipelineShell.Proofs.Conduct

/-! A step under a redirection, taken apart: the targets are opened, the step runs under the changed
wiring, and the targets are closed in the opposite order. -/

namespace PipelineShell.Shell

variable {τ α : Type}

def openDestination (stream : Stream) (d : Destination) : Shell.Step τ Unit :=
  match d.target with
  | none => pure ()
  | some path => do
    let place ← openTarget path d.append
    modify fun s => s.setFile stream (some (.start place d.append))

def closeDestination (stream : Stream) (d : Destination) : Shell.Step τ Unit :=
  if d.target.isSome then closeFile stream else pure ()

def openTargets (r : Redirection) : Shell.Step τ Unit := do
  openDestination .stdout r.stdout
  openDestination .stderr r.stderr

def closeTargets (r : Redirection) : Shell.Step τ Unit := do
  closeDestination .stderr r.stderr
  closeDestination .stdout r.stdout

def openHeld (d : Destination) : Shell.Step τ (Option BlockWriter) :=
  match d.target with
  | none => pure none
  | some path => do pure (some (.start (← openTarget path d.append) d.append))

theorem openHeld_eq_ok_some {d : Destination} {s t : Shell τ} {w : BlockWriter}
    (h : openHeld d s = .ok (some w) t) : ∃ place, w = .start place d.append := by
  unfold openHeld at h
  cases hd : d.target with
  | none => simp [hd] at h
  | some path =>
    simp only [hd] at h
    obtain ⟨place, u, _, hp⟩ := Attempt.bind_eq_ok.mp h
    cases hp
    exact ⟨place, rfl⟩

theorem toDestination_eq (stream : Stream) (d : Destination) (step : Shell.Step τ α) :
    toDestination stream d step =
      openDestination stream d >>= fun _ => step.ensure (closeDestination stream d) := by
  funext s
  cases hd : d.target with
  | none =>
    simp only [toDestination, openDestination, closeDestination, hd, Attempt.bind_apply,
      Attempt.pure_apply, Attempt.ensure]
    cases step s <;> rfl
  | some path =>
    simp only [toDestination, openDestination, closeDestination, hd, Attempt.bind_apply,
      Attempt.modify_apply]
    cases openTarget path d.append s <;> rfl

theorem bound_eq_ok {change : Wiring → Wiring} {step : Shell.Step τ α} {s u : Shell τ} {a : α} :
    bound change step s = .ok a u ↔
      ∃ t, step { s with wiring := change s.wiring } = .ok a t ∧
        u = { t with wiring := s.wiring } := by
  unfold bound
  cases step { s with wiring := change s.wiring } <;> simp [and_assoc, eq_comm]

theorem bound_eq_error {change : Wiring → Wiring} {step : Shell.Step τ α} {s u : Shell τ}
    {e : Failure} : bound change step s = .error e u ↔
      ∃ t, step { s with wiring := change s.wiring } = .error e t ∧
        u = { t with wiring := s.wiring } := by
  unfold bound
  cases step { s with wiring := change s.wiring } <;> simp [and_assoc, eq_comm]

theorem final_bound (change : Wiring → Wiring) (step : Shell.Step τ α) (s : Shell τ) :
    (bound change step).final s =
      { step.final { s with wiring := change s.wiring } with wiring := s.wiring } := by
  cases h : step { s with wiring := change s.wiring } <;> simp only [Attempt.final, bound, h]

theorem bound_fails_iff {P : Failure → Prop} {change : Wiring → Wiring} {step : Shell.Step τ α} :
    Attempt.Fails P (bound change step) s ↔
      Attempt.Fails P step { s with wiring := change s.wiring } := by
  unfold Attempt.Fails
  simp only [bound_eq_error]
  constructor
  · rintro ⟨e, _, ⟨t, h, rfl⟩, he⟩
    exact ⟨e, t, h, he⟩
  · rintro ⟨e, t, h, he⟩
    exact ⟨e, _, ⟨t, h, rfl⟩, he⟩

theorem redirected_eq (r : Redirection) (step : Shell.Step τ α) : redirected r step =
    openDestination .stdout r.stdout >>= fun _ =>
      (openDestination .stderr r.stderr >>= fun _ =>
        (bound (rewire r) step).ensure (closeDestination .stderr r.stderr)).ensure
          (closeDestination .stdout r.stdout) := by
  rw [redirected, toDestination_eq, toDestination_eq]

theorem redirected_eq_ok {r : Redirection} {step : Shell.Step τ α} {s u : Shell τ} {a : α} :
    redirected r step s = .ok a u ↔ ∃ s' t, openTargets r s = .ok () s' ∧
      step { s' with wiring := rewire r s'.wiring } = .ok a t ∧
      closeTargets r { t with wiring := s'.wiring } = .ok () u := by
  simp only [redirected_eq, openTargets, closeTargets, Attempt.bind_eq_ok, Attempt.ensure_eq_ok,
    bound_eq_ok]
  constructor
  · rintro ⟨_, s₁, h₁, s₄, ⟨_, s₂, h₂, _, ⟨s₃, h₃, rfl⟩, h₄⟩, h₅⟩
    exact ⟨s₂, s₃, ⟨_, s₁, h₁, h₂⟩, h₃, _, s₄, h₄, h₅⟩
  · rintro ⟨s₂, s₃, ⟨_, s₁, h₁, h₂⟩, h₃, _, s₄, h₄, h₅⟩
    exact ⟨_, s₁, h₁, s₄, ⟨_, s₂, h₂, _, ⟨s₃, h₃, rfl⟩, h₄⟩, h₅⟩

theorem reportAs_eq_some {name : String} {f : Failure} {y : Shell.Step τ Bool} :
    reportAs name f = some y ↔ (∀ g, f ≠ .shell g) ∧
      y = (complain (name ++ ": " ++ f.message) >>= fun _ => pure true) := by
  cases f <;> simp [reportAs, eq_comm]

theorem keeps_openTarget (path : String) (append : Bool) :
    Attempt.Keeps FilesOnly (openTarget path append : Shell.Step τ Location) := by
  intro s
  have hdevices := FileTree.keeps_openTarget s.world.dir path append s.world.tree
  unfold Attempt.final openTarget at *
  cases h : FileTree.openTarget s.world.dir path append s.world.tree <;>
    (rw [h] at hdevices; exact ⟨rfl, hdevices⟩)

theorem keeps_setFile (stream : Stream) (f : Option TextWriter) :
    Attempt.Keeps FilesOnly (modify fun s => s.setFile stream f : Shell.Step τ PUnit) :=
  Attempt.keeps_modify fun s => by
    have hsame := refl_of FileTree.NoNewDevice s.world.tree
    exact filesOnly_setFile s stream f hsame

theorem keeps_openDestination (stream : Stream) (d : Destination) :
    Attempt.Keeps FilesOnly (openDestination stream d : Shell.Step τ Unit) := by
  unfold openDestination
  cases d.target with
  | none => exact Attempt.keeps_pure _
  | some path => exact (keeps_openTarget path d.append).bind fun _ => keeps_setFile stream _

theorem keeps_openHeld (d : Destination) :
    Attempt.Keeps FilesOnly (openHeld d : Shell.Step τ (Option BlockWriter)) := by
  unfold openHeld
  cases d.target with
  | none => exact Attempt.keeps_pure _
  | some path => exact (keeps_openTarget path d.append).bind fun _ => Attempt.keeps_pure _

theorem keeps_closeFile (stream : Stream) :
    Attempt.Keeps FilesOnly (closeFile stream : Shell.Step τ Unit) :=
  (keeps_onFile stream TextWriter.keeps_close).ensure (keeps_setFile stream none)

theorem keeps_closeDestination (stream : Stream) (d : Destination) :
    Attempt.Keeps FilesOnly (closeDestination stream d : Shell.Step τ Unit) := by
  unfold closeDestination
  split
  · exact keeps_closeFile stream
  · exact Attempt.keeps_pure _

theorem keeps_openTargets (r : Redirection) :
    Attempt.Keeps FilesOnly (openTargets r : Shell.Step τ Unit) :=
  (keeps_openDestination .stdout _).bind fun _ => keeps_openDestination .stderr _

theorem keeps_closeTargets (r : Redirection) :
    Attempt.Keeps FilesOnly (closeTargets r : Shell.Step τ Unit) :=
  (keeps_closeDestination .stderr _).bind fun _ => keeps_closeDestination .stdout _

theorem keeps_flush (o : Outlet) : Attempt.Keeps FilesOnly (flush o : Shell.Step τ Unit) := by
  cases o with
  | file stream => exact keeps_onFile stream TextWriter.keeps_flush
  | full atOnce => exact fun s => (final_flush_full atOnce s).symm ▸ refl_of FilesOnly s
  | _ => exact Attempt.keeps_pure _

end PipelineShell.Shell
