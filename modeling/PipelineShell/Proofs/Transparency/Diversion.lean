import PipelineShell.Proofs.Debts
import PipelineShell.Proofs.Orderly

/-! A builtin does not see where its output leads. It does the same whether what it writes goes to
the shell's own output or is kept for the stage after. -/

namespace PipelineShell

namespace Attempt

variable {ε σ ρ α β : Type} {R S : σ → ρ → Prop}

/-- Two runs end alike: with the same value in states of one relation, or with the same failure in
states of another. -/
inductive Agree (R S : σ → ρ → Prop) : EStateM.Result ε σ α → EStateM.Result ε ρ α → Prop
  | ok {a : α} {s : σ} {t : ρ} (h : R s t) : Agree R S (.ok a s) (.ok a t)
  | error {e : ε} {s : σ} {t : ρ} (h : S s t) : Agree R S (.error e s) (.error e t)

theorem Agree.bind_of_ok {R' : σ → ρ → Prop} {x : Attempt ε σ α} {y : Attempt ε ρ α}
    {f : α → Attempt ε σ β} {g : α → Attempt ε ρ β} {s : σ} {t : ρ} (h : Agree R S (x s) (y t))
    (hf : ∀ a s' t', x s = .ok a s' → R s' t' → Agree R' S (f a s') (g a t')) :
    Agree R' S ((x >>= f) s) ((y >>= g) t) := by
  rw [bind_apply, bind_apply]
  generalize x s = v at h hf
  generalize y t = w at h
  cases h with
  | ok h => exact hf _ _ _ rfl h
  | error h => exact .error h

theorem Agree.bind {R' : σ → ρ → Prop} {x : Attempt ε σ α} {y : Attempt ε ρ α}
    {f : α → Attempt ε σ β} {g : α → Attempt ε ρ β} {s : σ} {t : ρ} (h : Agree R S (x s) (y t))
    (hf : ∀ a s t, R s t → Agree R' S (f a s) (g a t)) :
    Agree R' S ((x >>= f) s) ((y >>= g) t) :=
  h.bind_of_ok fun a _ _ _ => hf a _ _

theorem Agree.ensure {R' : σ → ρ → Prop} {x : Attempt ε σ α} {y : Attempt ε ρ α}
    {ending : Attempt ε σ Unit} {ending' : Attempt ε ρ Unit} {s : σ} {t : ρ}
    (h : Agree R R (x s) (y t)) (hend : ∀ s t, R s t → Agree R' R' (ending s) (ending' t)) :
    Agree R' R' (x.ensure ending s) (y.ensure ending' t) := by
  unfold Attempt.ensure
  generalize x s = v at h
  generalize y t = w at h
  cases h with
  | @ok _ s t h =>
    have hlast := hend s t h
    dsimp only
    generalize ending s = v at hlast
    generalize ending' t = w at hlast
    cases hlast with
    | ok h => exact .ok h
    | error h => exact .error h
  | @error _ s t h =>
    have hlast := hend s t h
    dsimp only
    generalize ending s = v at hlast
    generalize ending' t = w at hlast
    cases hlast with
    | ok h => exact .error h
    | error h => exact .error h

theorem Agree.handle {x : Attempt ε σ α} {y : Attempt ε ρ α} {h : ε → Option (Attempt ε σ α)}
    {h' : ε → Option (Attempt ε ρ α)} {s : σ} {t : ρ} (hx : Agree R R (x s) (y t))
    (hsame : ∀ e, h e = none ↔ h' e = none)
    (hh : ∀ e z z', h e = some z → h' e = some z' → ∀ s t, R s t → Agree R R (z s) (z' t)) :
    Agree R R (x.handle h s) (y.handle h' t) := by
  unfold Attempt.handle
  generalize x s = v at hx
  generalize y t = w at hx
  cases hx with
  | ok h => exact .ok h
  | @error e _ _ hst =>
    dsimp only
    cases he : h e with
    | none =>
      rw [(hsame e).mp he]
      exact .error hst
    | some z =>
      cases he' : h' e with
      | none => exact absurd ((hsame e).mpr he') (by simp [he])
      | some z' => exact hh e z z' he he' _ _ hst

theorem Agree.final {x : Attempt ε σ α} {y : Attempt ε ρ α} {s : σ} {t : ρ}
    (h : Agree R R (x s) (y t)) : R (x.final s) (y.final t) := by
  unfold Attempt.final
  generalize x s = v at h
  generalize y t = w at h
  cases h with
  | ok h => exact h
  | error h => exact h

theorem Agree.mono {R' S S' : σ → ρ → Prop} {v : EStateM.Result ε σ α} {w : EStateM.Result ε ρ α}
    (h : Agree R S v w) (hr : ∀ s t, R s t → R' s t) (hs : ∀ s t, S s t → S' s t) :
    Agree R' S' v w := by
  cases h with
  | ok h => exact .ok (hr _ _ h)
  | error h => exact .error (hs _ _ h)

theorem Agree.of_final {R' S' : σ → ρ → Prop} {x : Attempt ε σ α} {y : Attempt ε ρ α} {s : σ}
    {t : ρ} (h : Agree R S (x s) (y t))
    (hr : R (x.final s) (y.final t) → R' (x.final s) (y.final t))
    (hs : S (x.final s) (y.final t) → S' (x.final s) (y.final t)) :
    Agree R' S' (x s) (y t) := by
  unfold Attempt.final at hr hs
  generalize x s = v at h hr hs
  generalize y t = w at h hr hs
  cases h with
  | ok h => exact .ok (hr h)
  | error h => exact .error (hs h)

end Attempt

namespace Shell

variable {τ α β : Type} {base : Console} {s t : Shell τ}

def divert (base : Console) (kept : String) (s : Shell τ) : Shell τ :=
  { s with
    wiring := { s.wiring with stdout := .captured }
    output := base
    captured := kept }

/-- The shell whose builtin writes to the shell's own output, and the one that keeps the same texts
instead. -/
inductive Diverted (base : Console) : Shell τ → Shell τ → Prop
  | intro {s : Shell τ} (kept : String) (hout : s.wiring.stdout = .output)
      (herr : s.wiring.stderr ≠ .output ∧ s.wiring.stderr ≠ .captured)
      (houtput : s.output = base.write kept) : Diverted base s (divert base kept s)

/-- A step that does not see where the output leads. -/
def Blind (x : Shell.Step τ α) : Prop :=
  ∀ base s t, Diverted base s t → Attempt.Agree (Diverted base) (Diverted base) (x s) (x t)

theorem blind_pure (a : α) : Blind (pure a : Shell.Step τ α) :=
  fun _ _ _ h => .ok h

theorem blind_throw (f : Failure) : Blind (throw f : Shell.Step τ α) :=
  fun _ _ _ h => .error h

theorem Blind.bind {x : Shell.Step τ α} {f : α → Shell.Step τ β} (hx : Blind x)
    (hf : ∀ a, Blind (f a)) : Blind (x >>= f) :=
  fun base s t h => (hx base s t h).bind fun a _ _ h => hf a _ _ _ h

theorem Blind.ensure {x : Shell.Step τ α} {ending : Shell.Step τ Unit} (hx : Blind x)
    (hend : Blind ending) : Blind (x.ensure ending) :=
  fun base s t h => (hx base s t h).ensure fun _ _ h => hend _ _ _ h

theorem Blind.handle {x : Shell.Step τ α} {h : Failure → Option (Shell.Step τ α)} (hx : Blind x)
    (hh : ∀ f y, h f = some y → Blind y) : Blind (x.handle h) := by
  intro base s t hst
  refine (hx base s t hst).handle (fun _ => Iff.rfl) fun f y z hy hz s t h => ?_
  cases hy.symm.trans hz
  exact hh f y hy base s t h

theorem blind_get {f : Shell τ → Shell.Step τ α}
    (hsame : ∀ base kept s, f (divert base kept s) = f s) (hf : ∀ s, Blind (f s)) :
    Blind (get >>= f) := by
  rintro base s _ ⟨kept, hout, herr, houtput⟩
  change Attempt.Agree _ _ (f s s) (f (divert base kept s) (divert base kept s))
  rw [hsame base kept s]
  exact hf s _ _ _ ⟨kept, hout, herr, houtput⟩

theorem blind_modify {f : Shell τ → Shell τ}
    (hsame : ∀ base kept s, f (divert base kept s) = divert base kept (f s))
    (hwiring : ∀ s, (f s).wiring = s.wiring) (houtput : ∀ s, (f s).output = s.output) :
    Blind (modify f : Shell.Step τ PUnit) := by
  rintro base s _ ⟨kept, hout, herr, ho⟩
  rw [Attempt.modify_apply, Attempt.modify_apply, hsame]
  refine .ok ⟨kept, ?_, ?_, ?_⟩
  · rw [hwiring]
    exact hout
  · rw [hwiring]
    exact herr
  · rw [houtput]
    exact ho

theorem diverted_setFile {f : Option TextWriter} {stream : Stream} {tree : FileTree}
    (h : Diverted base s t) :
    Diverted base ((s.setTree tree).setFile stream f) ((t.setTree tree).setFile stream f) := by
  obtain ⟨kept, hout, herr, ho⟩ := h
  cases stream <;> exact ⟨kept, hout, herr, ho⟩

theorem blind_onFile (stream : Stream) (step : TextWriter.Writing Unit) :
    Blind (onFile stream step : Shell.Step τ Unit) := by
  intro base s t h
  have hfile : t.file stream = s.file stream := by
    obtain ⟨kept, _, _, _⟩ := h
    cases stream <;> rfl
  have htree : t.world.tree = s.world.tree := by
    obtain ⟨kept, _, _, _⟩ := h
    rfl
  cases hf : s.file stream with
  | none =>
    rw [onFile_of_none hf, onFile_of_none (hfile.trans hf)]
    exact .ok h
  | some w =>
    rw [onFile_of_some hf, onFile_of_some (hfile.trans hf), htree]
    cases step (w, s.world.tree) with
    | ok a p => exact .ok (diverted_setFile h)
    | error f p => exact .error (diverted_setFile h)

def writeOn (stream : Stream) (text : String) : Shell.Step τ Unit := do
  writeTo ((← get).wiring.outlet stream) text

theorem blind_writeOn (stream : Stream) (text : String) :
    Blind (writeOn stream text : Shell.Step τ Unit) := by
  rintro base s _ ⟨kept, hout, herr, ho⟩
  change Attempt.Agree _ _ (writeTo (s.wiring.outlet stream) text s)
    (writeTo ((divert base kept s).wiring.outlet stream) text (divert base kept s))
  cases stream with
  | stdout =>
    have hs : s.wiring.outlet .stdout = .output := hout
    have ht : (divert base kept s).wiring.outlet .stdout = .captured := rfl
    rw [hs, ht]
    refine .ok (.intro (kept ++ text) hout herr ?_)
    change s.output.write text = base.write (kept ++ text)
    rw [ho, Console.write_write]
  | stderr =>
    have ht : (divert base kept s).wiring.outlet .stderr = s.wiring.outlet .stderr := rfl
    rw [ht]
    cases hs : s.wiring.outlet .stderr with
    | output => exact (herr.1 hs).elim
    | captured => exact (herr.2 hs).elim
    | errors => exact .ok (.intro kept hout herr ho)
    | file f => exact blind_onFile f _ _ _ _ ⟨kept, hout, herr, ho⟩
    | full atOnce =>
      have hwaiting : (divert base kept s).waiting = s.waiting := rfl
      simp only [writeTo_full_apply, hwaiting]
      cases atOnce && !text.isEmpty with
      | true => exact .error ⟨kept, hout, herr, ho⟩
      | false => exact .ok ⟨kept, hout, herr, ho⟩

theorem blind_write (text : String) : Blind (write text : Shell.Step τ Unit) :=
  blind_writeOn .stdout text

theorem printLine_eq (stream : Stream) (text : String) :
    (printLine stream text : Shell.Step τ Unit) =
    writeOn stream text >>= fun _ => writeOn stream "\n" := by
  funext s
  have hwiring := ((rests_writeTo (s.wiring.outlet stream) text) s).wiring
  change (writeTo (s.wiring.outlet stream) text >>= fun _ =>
    writeTo (s.wiring.outlet stream) "\n") s = _
  cases hs : writeTo (s.wiring.outlet stream) text s with
  | ok a t =>
    rw [Attempt.final_of_ok hs] at hwiring
    have hfirst : writeOn stream text s = .ok a t := hs
    rw [Attempt.bind_of_ok hs, Attempt.bind_of_ok hfirst, ← hwiring]
    rfl
  | error f t =>
    have hfirst : writeOn stream text s = .error f t := hs
    rw [Attempt.bind_of_error hs, Attempt.bind_of_error hfirst]

theorem blind_printLine (stream : Stream) (text : String) :
    Blind (printLine stream text : Shell.Step τ Unit) := by
  rw [printLine_eq]
  exact (blind_writeOn stream text).bind fun _ => blind_writeOn stream "\n"

def toRead (s : Shell τ) : String :=
  match s.wiring.stdin with
  | .own => s.remaining
  | .given => s.given

theorem readAll_apply (s : Shell τ) : readAll s = .ok s.toRead (readAll.final s) := by
  rw [final_readAll]
  simp only [readAll, Attempt.bind_apply, Attempt.get_apply, toRead]
  cases s.wiring.stdin <;> rfl

theorem blind_readAll : Blind (readAll : Shell.Step τ String) := by
  rintro base s _ ⟨kept, hout, herr, ho⟩
  have hstdin : (divert base kept s).wiring.stdin = s.wiring.stdin := rfl
  have hleft : (divert base kept s).remaining = s.remaining := rfl
  simp only [readAll, Attempt.bind_apply, Attempt.get_apply, hstdin, hleft]
  cases s.wiring.stdin <;> exact .ok ⟨kept, hout, herr, ho⟩

end Shell

end PipelineShell
