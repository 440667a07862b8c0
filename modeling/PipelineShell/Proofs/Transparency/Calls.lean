import PipelineShell.Proofs.Conduct.Stages
import PipelineShell.Proofs.Transparency.Diversion

/-! A builtin that runs as a stage does the same as the last one and before another, but that its
texts go to the shell's own output or are kept. -/

namespace PipelineShell.Shell

variable {τ α : Type} {base : Console} {s t : Shell τ}

theorem blind_closeDestination (stream : Stream) (d : Destination) :
    Blind (closeDestination stream d : Shell.Step τ Unit) := by
  unfold closeDestination
  split
  · refine (blind_onFile stream TextWriter.close).ensure (blind_modify ?_ ?_ ?_)
    · exact fun _ _ _ => by cases stream <;> rfl
    · exact fun s => wiring_setFile s stream none
    · exact fun _ => by cases stream <;> rfl
  · exact blind_pure _

theorem blind_called {e : Engine τ} {tag : τ} {c : Command}
    (hb : Blind (e.handler tag c.args)) : Blind (called e tag c) := by
  refine (hb.handle fun f y hy => ?_).ensure ?_
  · obtain ⟨-, rfl⟩ := reportAs_eq_some.mp hy
    exact (blind_printLine _ _).bind fun _ => blind_pure _
  · rintro base s _ ⟨kept, hout, herr, ho⟩
    have hflush : (do flush (← get).wiring.stdout : Shell.Step τ Unit) s =
        flush s.wiring.stdout s := rfl
    rw [hflush, hout]
    exact .ok ⟨kept, hout, herr, ho⟩

theorem blind_bound {r : Redirection} {step : Shell.Step τ α} (hr : r.stdout.target = none)
    (h : Blind step) : Blind (bound (rewire r) step) := by
  rintro base s _ ⟨kept, hout, herr, ho⟩
  have hdiverted : ({ divert base kept s with
      wiring := rewire r (divert base kept s).wiring } : Shell τ) =
      divert base kept { s with wiring := rewire r s.wiring } := by
    simp [divert, rewire, hr]
  have hstep := h base _ _ (Diverted.intro (s := { s with wiring := rewire r s.wiring }) kept
    (by simpa [rewire, hr] using hout)
    (by simp only [rewire]; split <;> simp [herr]) ho)
  unfold bound
  rw [hdiverted]
  generalize step { s with wiring := rewire r s.wiring } = v at hstep
  generalize step (divert base kept { s with wiring := rewire r s.wiring }) = w at hstep
  cases hstep with
  | ok h =>
    obtain ⟨kept', _, _, ho'⟩ := h
    exact .ok ⟨kept', hout, herr, ho'⟩
  | error h =>
    obtain ⟨kept', _, _, ho'⟩ := h
    exact .error ⟨kept', hout, herr, ho'⟩

inductive Forked (base : Console) : Shell τ → Shell τ → Prop
  | intro {s : Shell τ} (hout : s.wiring.stdout = .output)
      (herr : s.wiring.stderr ≠ .output ∧ s.wiring.stderr ≠ .captured)
      (houtput : s.output = base) (hcaptured : s.captured = "") :
      Forked base s (divert base "" s)

theorem Forked.diverted (h : Forked base s t) : Diverted base s t := by
  obtain ⟨hout, herr, rfl, -⟩ := h
  exact ⟨"", hout, herr, (Console.write_empty _).symm⟩

theorem agree_openDestination (stream : Stream) (d : Destination) (h : Forked base s t) :
    Attempt.Agree (Forked base) (Diverted base) (openDestination stream d s)
      (openDestination stream d t) := by
  obtain ⟨hout, herr, ho, hc⟩ := h
  have hworld : (divert base "" s).world = s.world := rfl
  rw [openDestination_apply, openDestination_apply, hworld]
  cases d.openIn s.world.dir s.world.tree with
  | ok place tree => cases place <;> cases stream <;> exact .ok ⟨hout, herr, ho, hc⟩
  | error f tree =>
    subst ho
    exact .error ⟨"", hout, herr, (Console.write_empty _).symm⟩

/-- Under a target of its own the builtin runs in one shell, wherever its output would lead. -/
theorem agree_bound_of_target {e : Engine τ} (he : e.GoesByWiring) {tag : τ} {c : Command}
    {r : Redirection} {path : String} (hr : r.stdout.target = some path)
    (h : Forked base s t) : Attempt.Agree (Diverted base) (Diverted base)
      (bound (rewire r) (called e tag c) s) (bound (rewire r) (called e tag c) t) := by
  obtain ⟨hout, herr, rfl, hc⟩ := h
  have hsame : ({ divert s.output "" s with
      wiring := rewire r (divert s.output "" s).wiring } : Shell τ) =
      { s with wiring := rewire r s.wiring } := by
    simp [divert, rewire, hr, ← hc]
  have hspeaks := speaks_called he tag c { s with wiring := rewire r s.wiring }
  have hnever : ∀ o : Outlet, o ≠ .file .stdout → o ≠ .file .stderr → s.wiring.stderr ≠ o →
      ∀ stream, (rewire r s.wiring).outlet stream ≠ o := by
    intro o h1 h2 h3 stream
    cases stream with
    | stdout => simpa [rewire, Wiring.outlet, hr] using h1.symm
    | stderr =>
      simp only [rewire, Wiring.outlet]
      split
      · exact h2.symm
      · exact h3
  have houtput := hspeaks.output (hnever .output (by simp) (by simp) herr.1)
  have hcaptured := hspeaks.captured (hnever .captured (by simp) (by simp) herr.2)
  have hfork : ∀ v : Shell τ, v.output = s.output → v.captured = s.captured →
      Diverted s.output { v with wiring := s.wiring }
        { v with wiring := (divert s.output "" s).wiring } := by
    intro v hvo hvc
    have hv : ({ v with wiring := (divert s.output "" s).wiring } : Shell τ) =
        divert s.output "" { v with wiring := s.wiring } := by
      simp [divert, ← hvo, ← hvc.trans hc]
    rw [hv]
    exact ⟨"", hout, herr, by simpa using hvo⟩
  unfold bound
  rw [hsame]
  cases hcalled : called e tag c { s with wiring := rewire r s.wiring } with
  | ok b v =>
    rw [Attempt.final_of_ok hcalled] at houtput hcaptured
    exact .ok (hfork v houtput hcaptured)
  | error f v =>
    rw [Attempt.final_of_error hcalled] at houtput hcaptured
    exact .error (hfork v houtput hcaptured)

theorem agree_bound {e : Engine τ} (he : e.GoesByWiring) {tag : τ} {c : Command}
    (hb : Blind (e.handler tag c.args)) (r : Redirection) (h : Forked base s t) :
    Attempt.Agree (Diverted base) (Diverted base) (bound (rewire r) (called e tag c) s)
      (bound (rewire r) (called e tag c) t) := by
  cases hr : r.stdout.target with
  | none => exact blind_bound hr (blind_called hb) _ _ _ h.diverted
  | some path => exact agree_bound_of_target he hr h

theorem agree_invoke {e : Engine τ} (he : e.GoesByWiring) {tag : τ} {c : Command}
    (hb : Blind (e.handler tag c.args)) (h : Forked base s t) :
    Attempt.Agree (Diverted base) (Diverted base) (invoke e tag c s) (invoke e tag c t) := by
  rw [invoke, redirected_eq]
  refine (agree_openDestination .stdout _ h).bind fun _ s t h => ?_
  refine Attempt.Agree.ensure ?_ fun _ _ h => blind_closeDestination .stdout _ _ _ _ h
  refine (agree_openDestination .stderr _ h).bind fun _ s t h => ?_
  exact (agree_bound he hb _ h).ensure fun _ _ h => blind_closeDestination .stderr _ _ _ _ h

end PipelineShell.Shell
