import PipelineShell.Proofs.Abort.Causes
import PipelineShell.Proofs.Conduct.Frames

/-! What the builtins do besides writing. One reads the input, one goes to another directory and one
sleeps; the others write what they have to say and leave the rest of the shell alone. -/

namespace PipelineShell

namespace Shell

variable {τ : Type} {s t : Shell τ}

theorem WorksOn.dir (h : WorksOn s t) : t.world.dir = s.world.dir := by rw [h.same]

theorem FilesOnly.dir (h : FilesOnly s t) : t.world.dir = s.world.dir :=
  h.worksOn.dir

end Shell

namespace Builtin

open Shell Attempt

variable {τ : Type} {R : Shell τ → Shell τ → Prop} [IsPreorder (Shell τ) R]

/-- The relation allows for writing, and for what this builtin does besides. -/
structure Allows (R : Shell τ → Shell τ → Prop) (b : Builtin) (args : List String) : Prop where
  write : ∀ s t, WorksOn s t → R s t
  read : b = .cat → args = [] → Keeps R (readAll : Shell.Step τ String)
  move : b = .cd → ∀ s world, s.world.enter (expandHome s.world (args.head?.getD "~")) =
    .ok world → R s { s with world := { s.world with dir := world.dir } }
  sleep : b = .sleep → ∀ s seconds, R s { s with
    world := { s.world with slept := seconds :: s.world.slept } }

section

variable (hwrite : ∀ s t, WorksOn s t → R s t)

include hwrite

omit [IsPreorder (Shell τ) R] in
theorem keeps_line (stream : Stream) (text : String) :
    Keeps R (printLine stream text : Shell.Step τ Unit) :=
  (worksOn_printLine stream text).mono hwrite

theorem keeps_lineThen (stream : Stream) (text : String) (goesOn : Bool) :
    Keeps R (printLine stream text >>= fun _ => pure goesOn : Shell.Step τ Bool) :=
  (keeps_line hwrite stream text).bind fun _ => keeps_pure _

theorem keeps_complainAbout (builtin path : String) (f : Fault) :
    Keeps R (complainAbout builtin path f : Shell.Step τ Unit) := by
  cases f with
  | refused r => exact keeps_line hwrite _ _
  | nulByte => exact keeps_throw _

theorem keeps_copyFile (path : String) : Keeps R (copyFile path : Shell.Step τ Unit) := by
  refine keeps_get fun s => ?_
  cases s.world.read path with
  | ok bytes => exact (worksOn_write _).mono hwrite s
  | error f => exact keeps_throw _ s

theorem keeps_copyFiles (paths : List String) :
    Keeps R (copyFiles paths : Shell.Step τ Unit) := by
  induction paths with
  | nil => exact keeps_pure _
  | cons path paths ih =>
    refine ((keeps_copyFile hwrite path).handle fun f y hy => ?_).bind fun _ => ih
    cases f with
    | fault f => exact (Option.some.inj hy) ▸ keeps_complainAbout hwrite "cat" path f
    | _ => simp at hy

theorem keeps_runType (names : List String) : Keeps R (runType names : Shell.Step τ Bool) := by
  induction names with
  | nil => exact keeps_pure _
  | cons name names ih =>
    refine keeps_get fun s => ?_
    cases meaning s name <;> exact ((keeps_line hwrite _ _).bind fun _ => ih) s

theorem keeps_runWhich (names : List String) : Keeps R (runWhich names : Shell.Step τ Bool) := by
  induction names with
  | nil => exact keeps_pure _
  | cons name names ih =>
    refine keeps_get fun s => ?_
    cases meaning s name <;> exact ((keeps_line hwrite _ _).bind fun _ => ih) s

theorem keeps_sayEntries (l : List (Nat × String)) :
    Keeps R (sayEntries l : Shell.Step τ Unit) := by
  induction l with
  | nil => exact keeps_pure _
  | cons e l ih => exact (keeps_line hwrite _ _).bind fun _ => ih

theorem keeps_sayVariables (env : Environment) :
    Keeps R (sayVariables env : Shell.Step τ Unit) := by
  induction env with
  | nil => exact keeps_pure _
  | cons v env ih => exact (keeps_line hwrite _ _).bind fun _ => ih

theorem keeps_runWhoami (args : List String) :
    Keeps R (runWhoami args : Shell.Step τ Bool) := by
  refine keeps_get fun s => ?_
  dsimp only
  cases filled? s.world.env "USERNAME" <|> filled? s.world.env "USER" <;>
    exact keeps_lineThen hwrite _ _ _ s

end

variable {b : Builtin} {args : List String}

theorem keeps_runCat (h : Allows R .cat args) : Keeps R (runCat args : Shell.Step τ Bool) := by
  cases args with
  | nil =>
    exact (h.read rfl rfl).bind fun _ => ((worksOn_write _).mono h.write).bind fun _ => keeps_pure _
  | cons path paths => exact (keeps_copyFiles h.write _).bind fun _ => keeps_pure _

theorem keeps_runCd (h : Allows R .cd args) : Keeps R (runCd args : Shell.Step τ Bool) := by
  rw [runCd_eq]
  refine keeps_get fun s => ?_
  cases henter : s.world.enter (expandHome s.world (args.head?.getD "~")) with
  | ok world => exact h.move rfl s world henter
  | error f => exact ((keeps_complainAbout h.write "cd" _ f).bind fun _ => keeps_pure _) s

theorem keeps_runSleep (h : Allows R .sleep args) :
    Keeps R (runSleep args : Shell.Step τ Bool) := by
  cases args with
  | nil => exact keeps_lineThen h.write _ _ _
  | cons a args =>
    unfold runSleep
    dsimp only
    split
    · exact (keeps_modify fun s => h.sleep rfl s _).bind fun _ => keeps_pure _
    · exact keeps_lineThen h.write _ _ _

/-- What allows for writing and for the one thing that a builtin does besides, the builtin keeps. -/
theorem keeps_run (h : Allows R b args) : Keeps R (b.run args : Shell.Step τ Bool) := by
  cases b with
  | cat => exact keeps_runCat h
  | cd => exact keeps_runCd h
  | clear => exact ((worksOn_write _).mono h.write).bind fun _ => keeps_pure _
  | date => exact keeps_get fun s => keeps_lineThen h.write .stdout _ _ s
  | echo => exact keeps_lineThen h.write .stdout _ _
  | env => exact keeps_get fun s =>
      ((keeps_sayVariables h.write _).bind fun _ => keeps_pure _) s
  | exit => exact keeps_pure _
  | history => exact keeps_get fun s =>
      ((keeps_sayEntries h.write _).bind fun _ => keeps_pure _) s
  | pwd => exact keeps_get fun s => keeps_lineThen h.write .stdout _ _ s
  | sleep => exact keeps_runSleep h
  | true => exact keeps_pure _
  | type => exact keeps_runType h.write args
  | which => exact keeps_runWhich h.write args
  | whoami => exact keeps_runWhoami h.write args

end Builtin

namespace Shell

open Attempt

variable {τ : Type} {s t : Shell τ}

/-- The shell is in the directory in which it was. -/
def SameDir (s t : Shell τ) : Prop :=
  t.world.dir = s.world.dir

instance : IsPreorder (Shell τ) SameDir where
  refl _ := rfl
  trans _ _ _ h h' := Eq.trans h' h

theorem WorksOn.sameDir (h : WorksOn s t) : SameDir s t :=
  h.dir

theorem sameDir_run {b : Builtin} {args : List String} (hb : b ≠ .cd) :
    Keeps SameDir (b.run args : Shell.Step τ Bool) := by
  refine Builtin.keeps_run ⟨fun _ _ => WorksOn.sameDir, fun _ _ s => ?_,
    fun h => absurd h hb, fun _ _ _ => rfl⟩
  rw [final_readAll]
  cases s.wiring.stdin <;> rfl

theorem dir_run (b : Builtin) (args : List String) (s : Shell τ) :
    ((b.run args).final s).world.dir = s.world.dir ∨ b = .cd ∧ ∃ world,
      s.world.enter (Builtin.expandHome s.world (args.head?.getD "~")) = .ok world ∧
        ((b.run args).final s).world.dir = world.dir := by
  by_cases hb : b = .cd
  · subst hb
    have hcd : (Builtin.cd.run args : Shell.Step τ Bool) = Builtin.runCd args := rfl
    rw [hcd, Builtin.runCd_eq, final_bind_of_ok (get_apply s)]
    cases henter : s.world.enter (Builtin.expandHome s.world (args.head?.getD "~")) with
    | ok world => exact .inr ⟨rfl, world, rfl, rfl⟩
    | error f =>
      have hsame : Keeps SameDir (Builtin.complainAbout "cd" (args.head?.getD "~") f >>= fun _ =>
          pure true : Shell.Step τ Bool) :=
        (Builtin.keeps_complainAbout (fun _ _ => WorksOn.sameDir) _ _ _).bind fun _ => keeps_pure _
      exact .inl (hsame s)
  · exact .inl (sameDir_run hb s)

variable {e : Engine τ} {tag : τ} {c : Command}

theorem worksOn_invoke_of_unopened (h : ∀ t, openTargets c.redirection s ≠ .ok () t) :
    WorksOn s ((invoke e tag c).final s) := by
  have hopen := fun stream d s => (keeps_openDestination (τ := τ) stream d s).worksOn
  rw [invoke, redirected_eq]
  cases hout : openDestination .stdout c.redirection.stdout s with
  | error f s₁ =>
    rw [final_bind_of_error hout, ← final_of_error hout]
    exact hopen _ _ _
  | ok a s₁ =>
    have h₁ := hopen .stdout c.redirection.stdout s
    rw [final_of_ok hout] at h₁
    rw [final_bind_of_ok hout, final_ensure]
    refine trans_of WorksOn ?_ (keeps_closeDestination .stdout _ _).worksOn
    cases herr : openDestination .stderr c.redirection.stderr s₁ with
    | error f s₂ =>
      rw [final_bind_of_error herr, ← final_of_error herr]
      exact trans_of WorksOn h₁ (hopen _ _ _)
    | ok a s₂ => exact absurd (bind_eq_ok.mpr ⟨a, s₁, hout, herr⟩) (h s₂)

theorem worksOn_invoke (h : openTargets c.redirection s = .ok () t) :
    WorksOn ((e.handler tag c.args).final { t with wiring := rewire c.redirection t.wiring })
      ((invoke e tag c).final s) := by
  have hredirected : ∀ x : Shell.Step τ Bool, (redirected c.redirection x).final s =
      (closing c.redirection (bound (rewire c.redirection) x)).final t := by
    intro x
    rw [Attempt.final, redirected_of_openTargets h, Attempt.final]
  have hreport : ∀ f (y : Shell.Step τ Bool), reportAs c.name f = some y → Keeps WorksOn y := by
    intro f y hy
    obtain ⟨-, rfl⟩ := reportAs_eq_some.mp hy
    exact (worksOn_complain _).bind fun _ => keeps_pure _
  have hcall := final_handle hreport (e.handler tag c.args)
    { t with wiring := rewire c.redirection t.wiring }
  have hclose := fun stream d s => (keeps_closeDestination (τ := τ) stream d s).worksOn
  have hbound : ∀ (x : Shell.Step τ Bool), WorksOn (x.final
      { t with wiring := rewire c.redirection t.wiring })
      ((bound (rewire c.redirection) x).final t) := by
    intro x
    rw [final_bound]
    exact ⟨rfl⟩
  rw [invoke, hredirected, closing, final_ensure, final_ensure]
  refine trans_of WorksOn ?_ (trans_of WorksOn (hclose .stderr _ _) (hclose .stdout _ _))
  refine trans_of WorksOn ?_ (hbound _)
  rw [final_ensure]
  exact trans_of WorksOn hcall (worksOn_flush _ _)

end Shell

end PipelineShell
