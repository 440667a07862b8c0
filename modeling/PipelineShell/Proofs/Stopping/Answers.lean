import PipelineShell.Proofs.Overlooking
import PipelineShell.Proofs.Survival.Stages
import PipelineShell.Proofs.Transparency.Diversion

/-! What a builtin answers is kept until its pipeline ends, and nothing looks at it before. Builtins
that do the same and answer otherwise make the same of every stage. -/

namespace PipelineShell

namespace Attempt

variable {ε σ α β : Type}

theorem discard_bind (x : Attempt ε σ α) (f : α → Attempt ε σ β) :
    (discard (x >>= f) : Attempt ε σ PUnit) = x >>= fun a => discard (f a) := by
  funext s
  simp only [discard_apply, bind_apply]
  cases x s with
  | ok a t => exact (discard_apply (f a) t).symm
  | error e t => rfl

theorem discard_ensure (x : Attempt ε σ α) (ending : Attempt ε σ Unit) :
    (discard (x.ensure ending) : Attempt ε σ PUnit) =
      (discard x : Attempt ε σ PUnit).ensure ending := by
  funext s
  simp only [discard_apply, Attempt.ensure]
  cases x s with
  | ok a t =>
    dsimp only
    cases ending t <;> rfl
  | error e t =>
    dsimp only
    cases ending t <;> rfl

theorem discard_handle (x : Attempt ε σ α) (h : ε → Option (Attempt ε σ α)) :
    (discard (x.handle h) : Attempt ε σ PUnit) =
      (discard x : Attempt ε σ PUnit).handle fun e => (h e).map discard := by
  funext s
  simp only [discard_apply, Attempt.handle]
  cases x s with
  | ok a t => rfl
  | error e t =>
    dsimp only
    cases h e with
    | none => rfl
    | some y => exact (discard_apply y t).symm

end Attempt

open Attempt

/-- The builtins do the same, but for what they answer. -/
structure Engine.WorksAs {τ : Type} (e e' : Engine τ) : Prop where
  programs : e'.programs = e.programs
  chunkSize : e'.chunkSize = e.chunkSize
  host : e'.host = e.host
  handler : ∀ tag args,
    (discard (e'.handler tag args) : Shell.Step τ PUnit) = discard (e.handler tag args)

namespace Shell

variable {τ α : Type} {e e' : Engine τ}

theorem discard_bound (change : Wiring → Wiring) (step : Shell.Step τ α) :
    (discard (bound change step) : Shell.Step τ PUnit) = bound change (discard step) := by
  funext s
  simp only [discard_apply, bound]
  cases step { s with wiring := change s.wiring } <;> rfl

theorem discard_redirected (r : Redirection) (step : Shell.Step τ α) :
    (discard (redirected r step) : Shell.Step τ PUnit) = redirected r (discard step) := by
  simp only [redirected_eq, discard_bind, discard_ensure, discard_bound]

theorem discard_invoke (h : e.WorksAs e') (tag : τ) (c : Command) :
    (discard (invoke e' tag c) : Shell.Step τ PUnit) = discard (invoke e tag c) := by
  simp only [invoke, discard_redirected, discard_ensure, discard_handle, h.handler]

end Shell

namespace Job

open Shell

variable {τ α : Type} {e e' : Engine τ} {j j' : Job τ}

/-- The job with another answer whether the shell goes on. -/
def answering (goesOn : Bool) (j : Job τ) : Job τ :=
  { j with keepGoing := goesOn }

theorem overlooks_answering {x : Job.Step τ α} (hx : ∀ goesOn h, Overlooks (recast goesOn h id) x)
    (goesOn : Bool) : Overlooks (answering goesOn) x := by
  intro j
  have hrecast := hx goesOn j.shell.history j
  have hhistory := history_of_overlooks hx j
  have hj : recast goesOn j.shell.history id j = answering goesOn j := rfl
  rw [hj] at hrecast
  rw [hrecast]
  unfold Attempt.final at hhistory
  cases hstep : x j with
  | ok a t =>
    rw [hstep] at hhistory
    simp only [recast, retell, answering, id_eq, ← hhistory]
  | error f t =>
    rw [hstep] at hhistory
    simp only [recast, retell, answering, id_eq, ← hhistory]

/-- The two jobs are the same, but for whether the shell goes on. -/
inductive Undecided (j : Job τ) : Job τ → Prop
  | intro (goesOn : Bool) : Undecided j (answering goesOn j)

theorem undecided_of_overlooks {x : Job.Step τ α} (hx : ∀ goesOn h, Overlooks (recast goesOn h id) x)
    (h : Undecided j j') : Agree Undecided Undecided (x j) (x j') := by
  obtain ⟨goesOn⟩ := h
  rw [overlooks_answering hx goesOn j]
  cases x j with
  | ok a t => exact .ok ⟨goesOn⟩
  | error f t => exact .error ⟨goesOn⟩

theorem undecided_runBuiltin (he : e.WorksAs e') (tag : τ) (c : Command) (last : Bool)
    (h : Undecided j j') :
    Agree Undecided Undecided (runBuiltin e tag c last j) (runBuiltin e' tag c last j') := by
  obtain ⟨goesOn⟩ := h
  have hinvoke := congrFun (discard_invoke he tag c) (j.builtinShell last)
  have hshell : (answering goesOn j).builtinShell last = j.builtinShell last := rfl
  rw [runBuiltin_apply, runBuiltin_apply, hshell]
  rw [discard_apply, discard_apply] at hinvoke
  cases hi : invoke e tag c (j.builtinShell last) with
  | ok b u =>
    cases hi' : invoke e' tag c (j.builtinShell last) with
    | ok b' u' =>
      rw [hi, hi'] at hinvoke
      cases hinvoke
      exact .ok ⟨goesOn && b'⟩
    | error f' u' =>
      rw [hi, hi'] at hinvoke
      cases hinvoke
  | error f u =>
    cases hi' : invoke e' tag c (j.builtinShell last) with
    | ok b' u' =>
      rw [hi, hi'] at hinvoke
      cases hinvoke
    | error f' u' =>
      rw [hi, hi'] at hinvoke
      cases hinvoke
      exact .error ⟨goesOn⟩

theorem undecided_runStage (he : e.WorksAs e') (c : Command) (last : Bool) (h : Undecided j j') :
    Agree Undecided Undecided (runStage e c last j) (runStage e' c last j') := by
  cases hc : c.isEmpty with
  | true =>
    rw [runStage_of_isEmpty hc, runStage_of_isEmpty hc, runEmpty_congr he.chunkSize he.host]
    exact undecided_of_overlooks (fun _ _ => overlooks_runEmpty _) h
  | false =>
    have hregistry : j'.shell.registry = j.shell.registry := by
      obtain ⟨goesOn⟩ := h
      rfl
    cases hb : j.shell.registry.isBuiltin c.name with
    | true =>
      obtain ⟨tag, htag⟩ := resolve_of_isBuiltin hb
      rw [runStage_of_resolve hc hb htag,
        runStage_of_resolve hc (hregistry ▸ hb) (hregistry ▸ htag)]
      exact undecided_runBuiltin he tag c last h
    | false =>
      rw [runStage_of_program hc hb, runStage_of_program hc (hregistry ▸ hb),
        runProcess_congr he.programs he.chunkSize he.host]
      exact undecided_of_overlooks (fun _ _ => overlooks_runProcess c last) h

theorem undecided_passing (he : e.WorksAs e') (cs : List Command) (h : Undecided j j') :
    Agree Undecided Undecided (passing e cs j) (passing e' cs j') := by
  induction cs generalizing j j' with
  | nil => exact .ok h
  | cons c cs ih => exact (undecided_runStage he c false h).bind fun _ _ _ h => ih h

theorem undecided_runStages (he : e.WorksAs e') (cs : List Command) (h : Undecided j j') :
    Agree Undecided Undecided (runStages e cs j) (runStages e' cs j') := by
  induction cs generalizing j j' with
  | nil => exact .ok h
  | cons c cs ih => exact (undecided_runStage he c _ h).bind fun _ _ _ h => ih h

theorem undecided_run (he : e.WorksAs e') (p : Pipeline) (h : Undecided j j') :
    Agree Undecided Undecided (run e p j) (run e' p j') := by
  unfold run
  rw [he.host]
  refine Agree.ensure ((undecided_runStages he p.stages h).bind fun _ _ _ h => ?_) fun _ _ h => ?_
  · exact undecided_of_overlooks (fun _ _ => overlooks_emit) h
  · exact undecided_of_overlooks (fun _ _ => overlooks_finish _) h

end Job

/-- Whatever the builtins answer, a pipeline does the same. -/
theorem Pipeline.discard_execute {τ : Type} {e e' : Engine τ} (he : e.WorksAs e') (p : Pipeline) :
    (discard (p.execute e') : Shell.Step τ PUnit) = discard (p.execute e) := by
  funext s
  have hrun := Job.undecided_run he p (j := Job.start s) (.intro true)
  have hstart : Job.answering true (Job.start s) = Job.start s := rfl
  rw [hstart] at hrun
  cases hidle : p.isIdle with
  | true => simp [discard_apply, execute, hidle]
  | false =>
    simp only [discard_apply, execute, hidle, Bool.false_eq_true, if_false]
    generalize Job.run e p (Job.start s) = v at hrun
    generalize Job.run e' p (Job.start s) = w at hrun
    cases hrun with
    | ok h =>
      obtain ⟨goesOn⟩ := h
      rfl
    | error h =>
      obtain ⟨goesOn⟩ := h
      rfl

end PipelineShell
