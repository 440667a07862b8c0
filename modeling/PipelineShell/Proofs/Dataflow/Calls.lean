import PipelineShell.Proofs.Conduct.Builtins
import PipelineShell.Proofs.Dataflow.Fold

/-! Running a builtin, taken apart into the call of its handler and what surrounds the call. Where
its texts come to follows from its wiring. -/

namespace PipelineShell

namespace Shell

variable {τ : Type}

theorem FilesOnly.told {s t : Shell τ} (h : FilesOnly s t) : Told s [] t :=
  .nothing h.wiring h.registry h.output h.errors h.captured

end Shell

namespace Dataflow

open Shell

variable {τ : Type}

namespace Call

def lines (k : Call τ) : List (Stream × String) :=
  match k.result with
  | .ok _ _ => []
  | .error f _ => [(.stderr, k.command.name ++ ": " ++ f.message), (.stderr, "\n")]

theorem told_stdout_lines (k : Call τ) : told .stdout k.lines = "" := by
  unfold lines
  cases k.result <;> simp [told]

theorem told_stderr_lines (k : Call τ) : told .stderr k.lines = k.complaint := by
  unfold lines complaint
  cases k.result <;> simp [told]

theorem told_report {k : Call τ} {s t : Shell τ} (h : k.report s = .ok () t) :
    Told s k.lines t := by
  cases hk : k.result with
  | ok b u =>
    simp only [report, hk, lines] at h ⊢
    exact ((keeps_flush _).ok h).told
  | error f u =>
    simp only [report, hk, lines] at h ⊢
    obtain ⟨_, v, hv, hf⟩ := Attempt.bind_eq_ok.mp h
    have hacts : Acts (fun _ _ => False) s _ v := acts_printLine hv
    exact (hacts.told fun _ _ h => h.elim).trans ((keeps_flush _).ok hf).told

end Call

section

variable (c : Command) (fed last : Bool) (said : List (Stream × String))

theorem apart : (rewire c.redirection (streams fed last)).stdout ≠
    (rewire c.redirection (streams fed last)).stderr := by
  rcases c with ⟨_, _, ⟨⟨_ | _, _⟩, ⟨_ | _, _⟩⟩⟩ <;> cases last <;> simp [rewire, streams]

theorem heard_captured : heard (rewire c.redirection (streams fed last)) .captured said =
    if c.redirects .stdout || last then "" else told .stdout said := by
  rw [heard_eq _ (apart c fed last)]
  rcases c with ⟨_, _, ⟨⟨_ | _, _⟩, ⟨_ | _, _⟩⟩⟩ <;> cases last <;>
    simp [rewire, streams, Command.redirects, Redirection.get]

theorem heard_output : heard (rewire c.redirection (streams fed last)) .output said =
    if last && !c.redirects .stdout then told .stdout said else "" := by
  rw [heard_eq _ (apart c fed last)]
  rcases c with ⟨_, _, ⟨⟨_ | _, _⟩, ⟨_ | _, _⟩⟩⟩ <;> cases last <;>
    simp [rewire, streams, Command.redirects, Redirection.get]

theorem heard_errors : heard (rewire c.redirection (streams fed last)) .errors said =
    if c.redirects .stderr then "" else told .stderr said := by
  rw [heard_eq _ (apart c fed last)]
  rcases c with ⟨_, _, ⟨⟨_ | _, _⟩, ⟨_ | _, _⟩⟩⟩ <;> cases last <;>
    simp [rewire, streams, Command.redirects, Redirection.get]

end

theorem exists_call {e : Engine τ} (he : e.GoesByWiring) {tag : τ} {c : Command} {s u : Shell τ}
    {b : Bool} (h : invoke e tag c s = .ok b u) : ∃ k : Call τ, ∃ s' t : Shell τ,
      k.command = c ∧ k.tag = tag ∧ b = k.goesOn ∧
      e.handler tag c.args k.entry = k.result ∧ (∀ f v, k.result ≠ .error (.shell f) v) ∧
      Acts Around k.entry k.said k.after ∧
      openTargets c.redirection s = .ok () s' ∧
      k.entry = { s' with wiring := rewire c.redirection s'.wiring } ∧
      k.report k.after = .ok () t ∧
      closeTargets c.redirection { t with wiring := s'.wiring } = .ok () u := by
  obtain ⟨s', t, hopen, hstep, hclose⟩ := redirected_eq_ok.mp h
  obtain ⟨v, hv, hflush⟩ := Attempt.ensure_eq_ok.mp hstep
  obtain ⟨said, hacts⟩ := he tag c.args { s' with wiring := rewire c.redirection s'.wiring }
  rcases Attempt.handle_eq_ok.mp hv with hok | ⟨f, w, y, hfail, hf, hy⟩
  · refine ⟨⟨c, tag, _, .ok b v, said⟩, s', t, rfl, rfl, rfl, hok, by simp, ?_, hopen, rfl,
      hflush, hclose⟩
    exact Attempt.final_of_ok hok ▸ hacts
  · obtain ⟨hshell, rfl⟩ := reportAs_eq_some.mp hf
    obtain ⟨_, v', hcomplain, hp⟩ := Attempt.bind_eq_ok.mp hy
    cases hp
    refine ⟨⟨c, tag, _, .error f w, said⟩, s', t, rfl, rfl, rfl, hfail,
      fun g _ hg => hshell g (EStateM.Result.error.inj hg).1, ?_, hopen, rfl,
      Attempt.bind_eq_ok.mpr ⟨_, v, hcomplain, hflush⟩, hclose⟩
    exact Attempt.final_of_error hfail ▸ hacts

/-- A builtin that runs as a stage is called as the fold says, and leaves the kept text that the
fold leaves. -/
theorem exists_called {e : Engine τ} (he : e.GoesByWiring) {tag : τ} {c : Command}
    {before : List Command} {last : Bool} {x : Current τ} {u : Shell τ} {b : Bool}
    (hr : x.shell.registry.resolve c.name = .ok tag)
    (h : invoke e tag c (x.wired (streams (before.any Command.feeds) last)) = .ok b u) :
    ∃ k : Call τ, ∃ y : Current τ,
      k.command = c ∧ b = k.goesOn ∧ Called e before last x k y ∧
      y.shell = { u with wiring := .own } ∧ (last = false → u.captured = y.text) ∧
      u.registry = x.shell.registry := by
  obtain ⟨k, s, t, rfl, rfl, rfl, hran, hord, hacts, hopen, hentry, hreport, hclose⟩ :=
    exists_call he h
  have ho := (keeps_openTargets _).ok hopen
  have hc := (keeps_closeTargets _).ok hclose
  have hsw : s.wiring = streams (before.any Command.feeds) last := ho.wiring
  have htold := (hacts.told fun _ _ h => h).trans (Call.told_report hreport)
  rw [hsw] at hentry hclose
  have hew : k.entry.wiring =
      rewire k.command.redirection (streams (before.any Command.feeds) last) := by rw [hentry]
  have houtput := htold.output
  have herrors := htold.errors
  have hcaptured := htold.captured
  have hregistry := htold.registry
  rw [hew, heard_output, told_append, Call.told_stdout_lines] at houtput
  rw [hew, heard_errors, told_append, Call.told_stderr_lines] at herrors
  rw [hew, heard_captured, told_append, Call.told_stdout_lines] at hcaptured
  rw [hentry] at houtput herrors hcaptured hregistry
  refine ⟨k, ⟨{ u with wiring := .own },
    if k.command.redirects .stdout then "" else told .stdout k.said, x.targets⟩, rfl, rfl,
    { known := hr
      ran := hran
      ordinary := hord
      stdin := by rw [hew]; rfl
      given := by rw [hentry]; exact ho.given
      input := by rw [hentry]; exact ho.input
      behind := by rw [hentry]; exact ho.behind
      stdout := by rw [hew]; rfl
      stderr := by rw [hew]; rfl
      acts := hacts
      text := rfl
      output := ?_
      errors := ?_
      targets := rfl
      whole := ⟨s, t, u, hopen, hentry, hreport, hclose, rfl⟩ }, rfl, ?_, ?_⟩
  · rw [hc.output, houtput, ho.output]
    simp [Current.wired]
  · rw [hc.errors, herrors, ho.errors]
    rfl
  · rintro rfl
    rw [hc.captured, hcaptured, ho.captured]
    simp [Current.wired]
  · rw [hc.registry, hregistry, ho.registry]
    rfl

end Dataflow

end PipelineShell
