import PipelineShell.Proofs.Abort.Causes
import PipelineShell.Proofs.Replay.Calls

/-! A job under another history with the same texts. Each of its steps does the same. -/

namespace PipelineShell.Job

open Shell Attempt

variable {τ α : Type} {e : Engine τ}

def retell (h : History) (j : Job τ) : Job τ :=
  { j with shell := j.shell.retell h }

/-- The two jobs are the same, but that the history of the one holds the texts of the other. -/
inductive Retold : Job τ → Job τ → Prop
  | intro {j : Job τ} (h : History) (hh : j.shell.history.Echoes h) : Retold j (retell h j)

theorem retold_modify {f : Job τ → Job τ} (hf : ∀ h j, f (retell h j) = retell h (f j))
    (hhistory : ∀ j, (f j).shell.history = j.shell.history) :
    Respects Retold (modify f : Job.Step τ PUnit) := by
  refine respects_modify ?_
  rintro j _ ⟨h, hh⟩
  rw [hf]
  exact ⟨h, by rwa [hhistory]⟩

theorem retold_get {f : Job τ → Job.Step τ α} (hsame : ∀ h j, f (retell h j) = f j)
    (hf : ∀ j, Respects Retold (f j)) : Respects Retold (get >>= f) := by
  refine respects_get ?_ hf
  rintro j _ ⟨h, -⟩
  exact hsame h j

theorem retold_inShell {step : Shell.Step τ α} (hstep : Respects Shell.Retold step) :
    Respects Retold (inShell step) := by
  refine hstep.within ?_ ?_
  · rintro j _ ⟨h, hh⟩
    exact ⟨h, hh⟩
  · rintro j _ s _ ⟨h, hh⟩ ⟨h', hh'⟩
    exact ⟨h', hh'⟩

theorem retold_of_overlooks {x : Job.Step τ α}
    (hx : ∀ goesOn h, Overlooks (recast goesOn h id) x) : Respects Retold x := by
  rintro j _ ⟨h, hh⟩
  have hgo := keepGoing_of_overlooks hx j
  have hkept := history_of_overlooks hx j
  have hrecast : ∀ i : Job τ, i.keepGoing = j.keepGoing →
      recast j.keepGoing h id i = retell h i := by
    rintro i hi
    rw [← hi]
    rfl
  rw [← hrecast j rfl, hx j.keepGoing h j]
  unfold Attempt.final at hgo hkept
  cases hj : x j with
  | ok a i =>
    rw [hj] at hgo hkept
    exact .ok (hrecast i hgo ▸ ⟨h, hkept ▸ hh⟩)
  | error f i =>
    rw [hj] at hgo hkept
    exact .error (hrecast i hgo ▸ ⟨h, hkept ▸ hh⟩)

theorem retold_openDestination (d : Destination) :
    Respects Retold (openDestination d : Job.Step τ (Option Nat)) :=
  retold_of_overlooks fun _ _ => overlooks_openDestination d

theorem retold_drain : Respects Retold (drain : Job.Step τ (Option String)) := by
  refine retold_get (fun _ _ => rfl) fun j => ?_
  cases j.pending with
  | nothing => exact respects_pure _
  | text s => exact respects_pure _
  | stream pipe pieces =>
    exact (retold_of_overlooks fun _ _ => overlooks_claim pipe .drain).bind fun _ =>
      (retold_of_overlooks fun _ _ => overlooks_closePipe pipe).bind fun _ => respects_pure _

theorem retold_runBuiltin (he : e.ReadsTexts) (tag : τ) (c : Command) (last : Bool) :
    Respects Retold (runBuiltin e tag c last) := by
  refine retold_drain.bind fun given => Respects.bind ?_ fun _ =>
    (retold_inShell (retold_bound _ (retold_invoke he tag c))).bind fun goesOn => ?_
  · exact retold_modify (fun _ _ => rfl) fun _ => rfl
  · exact retold_modify (fun _ _ => rfl) fun _ => rfl

theorem retold_runStage (he : e.ReadsTexts) (c : Command) (last : Bool) :
    Respects Retold (runStage e c last) := by
  unfold runStage
  split
  · exact retold_of_overlooks fun _ _ => overlooks_runEmpty _
  · refine retold_get (fun _ _ => rfl) fun j => ?_
    dsimp only
    split
    · split
      · exact retold_runBuiltin he _ c last
      · exact respects_throw _
    · exact retold_of_overlooks fun _ _ => overlooks_runProcess c last

theorem retold_runStages (he : e.ReadsTexts) (cs : List Command) :
    Respects Retold (runStages e cs) := by
  induction cs with
  | nil => exact respects_pure _
  | cons c cs ih => exact (retold_runStage he c _).bind fun _ => ih

theorem retold_run (he : e.ReadsTexts) (p : Pipeline) : Respects Retold (run e p) :=
  ((retold_runStages he p.stages).bind fun _ =>
    retold_of_overlooks fun _ _ => overlooks_emit).ensure
      (retold_of_overlooks fun _ _ => overlooks_finish _)

end PipelineShell.Job
