import PipelineShell.Proofs.Companions
import PipelineShell.Proofs.Overlooking

/-! Histories that hold other pipelines under the same texts. No builtin sees the difference, since
it gets to see the texts alone. -/

namespace PipelineShell

namespace History

def texts (h : History) : List (Nat × String) :=
  h.kept.map fun (n, p) => (n, p.render)

/-- The two histories hold the same texts, and go on alike. -/
structure Echoes (h h' : History) : Prop where
  limit : h'.limit = h.limit
  texts : h'.texts = h.texts
  next : h'.next = h.next

theorem Echoes.rfl {h : History} : Echoes h h := ⟨Eq.refl _, Eq.refl _, Eq.refl _⟩

variable {h h' : History}

theorem entries_eq (h : History) (count : Int) : h.entries count =
    if 0 < count then h.texts.drop (h.texts.length - count.toNat) else h.texts := by
  unfold entries texts
  split <;> simp

theorem Echoes.entries (hh : h.Echoes h') (count : Int) : h'.entries count = h.entries count := by
  rw [entries_eq, entries_eq, hh.texts]

theorem texts_add (h : History) (p : Pipeline) : (h.add p).texts =
    if h.limit = 0 then h.texts ++ [(h.next, p.render)]
    else (h.texts ++ [(h.next, p.render)]).drop (h.texts.length + 1 - h.limit.toNat) := by
  unfold add trim texts
  split <;> simp

theorem Echoes.add (hh : h.Echoes h') {p q : Pipeline} (hpq : q.render = p.render) :
    (h.add p).Echoes (h'.add q) where
  limit := hh.limit
  texts := by rw [texts_add, texts_add, hh.limit, hh.texts, hh.next, hpq]
  next := by simp [History.add, hh.next]

end History

namespace Shell

open Attempt

variable {τ α : Type}

/-- The two shells are the same, but that the history of the one holds the texts of the other. -/
inductive Retold : Shell τ → Shell τ → Prop
  | intro {s : Shell τ} (h : History) (hh : s.history.Echoes h) : Retold s (retell h s)

theorem Retold.rfl {s : Shell τ} : Retold s s :=
  .intro s.history .rfl

theorem retold_modify {f : Shell τ → Shell τ} (hf : ∀ h s, f (retell h s) = retell h (f s))
    (hhistory : ∀ s, (f s).history = s.history) :
    Respects Retold (modify f : Shell.Step τ PUnit) := by
  refine respects_modify ?_
  rintro s _ ⟨h, hh⟩
  rw [hf]
  exact ⟨h, by rwa [hhistory]⟩

/-- What makes no use of the history does the same with another. -/
theorem retold_of_overlooks {x : Shell.Step τ α} (hx : ∀ h, Overlooks (retell h) x) :
    Respects Retold x := by
  rintro s _ ⟨h, hh⟩
  have hkept := congrArg Shell.history ((hx s.history).final (s := s) rfl)
  rw [hx h s]
  unfold Attempt.final at hkept
  cases hs : x s with
  | ok a t =>
    rw [hs] at hkept
    exact .ok ⟨h, hkept ▸ hh⟩
  | error f t =>
    rw [hs] at hkept
    exact .error ⟨h, hkept ▸ hh⟩

theorem retold_onFile (stream : Stream) (step : TextWriter.Writing Unit) :
    Respects Retold (onFile stream step : Shell.Step τ Unit) :=
  retold_of_overlooks fun _ => overlooks_onFile stream step

theorem retold_flush (o : Outlet) : Respects Retold (flush o : Shell.Step τ Unit) :=
  retold_of_overlooks fun _ => overlooks_flush o

theorem retold_writeTo (o : Outlet) (text : String) :
    Respects Retold (writeTo o text : Shell.Step τ Unit) :=
  retold_of_overlooks fun _ => overlooks_writeTo o text

theorem hears_retold : Hears (@Retold τ) where
  writes stream text := by
    rintro s _ ⟨h, hh⟩
    exact retold_writeTo (s.wiring.outlet stream) text s _ ⟨h, hh⟩
  reads := by
    rintro s _ ⟨h, hh⟩
    have hstdin : (retell h s).wiring.stdin = s.wiring.stdin := rfl
    simp only [readAll, Attempt.bind_apply, Attempt.get_apply, hstdin]
    cases s.wiring.stdin <;> exact .ok ⟨h, hh⟩

/-- Two shells with the same texts in their histories are alike to every builtin. -/
theorem companions_retold : Companions (@Retold τ) where
  toHears := hears_retold
  environment := by rintro s _ ⟨h, hh⟩; rfl
  moment := by rintro s _ ⟨h, hh⟩; rfl
  directory := by rintro s _ ⟨h, hh⟩; rfl
  accounts := by rintro s _ ⟨h, hh⟩; rfl
  registry := by rintro s _ ⟨h, hh⟩; rfl
  entries := by rintro s _ ⟨h, hh⟩; exact hh.entries
  located := by rintro s _ ⟨h, hh⟩ name; rfl
  entered := by rintro s _ ⟨h, hh⟩ path; rfl
  moves dir := retold_modify (fun _ _ => rfl) fun _ => rfl
  sleeps seconds := retold_modify (fun _ _ => rfl) fun _ => rfl

theorem retold_openDestination (stream : Stream) (d : Destination) :
    Respects Retold (openDestination stream d : Shell.Step τ Unit) := by
  rintro s _ ⟨h, hh⟩
  have hworld : (retell h s).world = s.world := rfl
  rw [openDestination_apply, openDestination_apply, hworld]
  cases d.openIn s.world.dir s.world.tree with
  | ok place tree => cases place <;> cases stream <;> exact .ok ⟨h, hh⟩
  | error f tree => exact .error ⟨h, hh⟩

theorem retold_closeDestination (stream : Stream) (d : Destination) :
    Respects Retold (closeDestination stream d : Shell.Step τ Unit) := by
  unfold closeDestination
  split
  · refine (retold_onFile stream _).ensure (retold_modify (fun h s => ?_) fun s => ?_)
    · cases stream <;> rfl
    · cases stream <;> rfl
  · exact respects_pure _

theorem bound_eq_within (change : Wiring → Wiring) (step : Shell.Step τ α) :
    bound change step = step.within (fun s => { s with wiring := change s.wiring })
      fun u s => { u with wiring := s.wiring } := by
  funext s
  unfold bound Attempt.within
  cases step { s with wiring := change s.wiring } <;> rfl

theorem retold_bound (change : Wiring → Wiring) {step : Shell.Step τ α}
    (hstep : Respects Retold step) : Respects Retold (bound change step) := by
  rw [bound_eq_within]
  refine hstep.within ?_ ?_
  · rintro s _ ⟨h, hh⟩
    exact ⟨h, hh⟩
  · rintro s _ u _ ⟨h, hh⟩ ⟨h', hh'⟩
    exact ⟨h', hh'⟩

end Shell

open Shell

/-- The builtins get to see the texts of the history alone. -/
def Engine.ReadsTexts {τ : Type} (e : Engine τ) : Prop :=
  ∀ tag args, Attempt.Respects Retold (e.handler tag args)

theorem Session.readsTexts_runCommand (programs : Programs) (chunkSize : Int) (host : Host) :
    (⟨runCommand, programs, chunkSize, host⟩ : Engine CommandTag).ReadsTexts := by
  intro tag args
  cases tag with
  | inl b =>
    refine companions_retold.run b fun _ path _ => ?_
    rintro s _ ⟨h, hh⟩
    rfl
  | inr p => exact hears_retold.probe p args

namespace Shell

open Attempt

variable {τ : Type} {e : Engine τ}

theorem retold_invoke (he : e.ReadsTexts) (tag : τ) (c : Command) :
    Respects Retold (invoke e tag c) := by
  have hcalled : Respects Retold (called e tag c) := by
    refine ((he tag c.args).handle fun f y hy => ?_).ensure ?_
    · obtain ⟨-, rfl⟩ := reportAs_eq_some.mp hy
      exact (hears_retold.line _ _).bind fun _ => respects_pure _
    · rintro s _ ⟨h, hh⟩
      exact retold_flush s.wiring.stdout s _ ⟨h, hh⟩
  rw [invoke, redirected_eq]
  exact (retold_openDestination _ _).bind fun _ => ((retold_openDestination _ _).bind fun _ =>
    (retold_bound _ hcalled).ensure (retold_closeDestination _ _)).ensure
      (retold_closeDestination _ _)

theorem retold_openTargets (r : Redirection) :
    Respects Retold (openTargets r : Shell.Step τ Unit) :=
  (retold_openDestination _ _).bind fun _ => retold_openDestination _ _

end Shell

end PipelineShell
