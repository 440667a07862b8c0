import PipelineShell.Proofs.Conduct.Stages
import PipelineShell.Proofs.Survival.Stages
import PipelineShell.Proofs.Transparency.Diversion

/-! A stage that runs nothing and redirects nothing. Before another it does nothing at all, and at
the end only makes the stage before it one that is not the last. -/

namespace PipelineShell

open Shell

/-- A stage that runs nothing and redirects nothing. -/
def Command.isBlank (c : Command) : Bool :=
  c.isEmpty && c.redirection.stdout.target.isNone && c.redirection.stderr.target.isNone

namespace Job

variable {τ : Type} {e : Engine τ} {c l : Command} {before xs ys : List Command} {j : Job τ}

/-- What each builtin finds at its input, as far as the stages run. -/
def readings (e : Engine τ) : List Command → Job τ → List String
  | [], _ => []
  | c :: cs, j =>
    let here := if !c.isEmpty && j.shell.registry.isBuiltin c.name then
      [(j.builtinShell cs.isEmpty).toRead] else []
    match runStage e c cs.isEmpty j with
    | .ok _ j' => here ++ readings e cs j'
    | .error _ _ => here

theorem runStage_of_isBlank (hc : c.isBlank = true) (last : Bool) (j : Job τ) :
    runStage e c last j = .ok () j := by
  simp only [Command.isBlank, Bool.and_eq_true, Option.isNone_iff_eq_none] at hc
  obtain ⟨⟨hempty, hout⟩, herr⟩ := hc
  rw [runStage_of_isEmpty hempty]
  simp [runEmpty, openDestination, hout, herr, Attempt.bind_apply, Attempt.discard_apply]

theorem isEmpty_of_isBlank (hc : c.isBlank = true) : c.isEmpty = true := by
  simp only [Command.isBlank, Bool.and_eq_true] at hc
  exact hc.1.1

theorem runStages_append (hxs : xs ≠ []) : runStages e (before ++ xs) =
    passing e before >>= fun _ => runStages e xs := by
  cases xs with
  | nil => exact absurd rfl hxs
  | cons c xs => exact runStages_append_cons before xs c

theorem readings_append_congr (hxs : xs ≠ []) (hys : ys ≠ [])
    (h : ∀ j, readings e xs j = readings e ys j) (before : List Command) (j : Job τ) :
    readings e (before ++ xs) j = readings e (before ++ ys) j := by
  induction before generalizing j with
  | nil => exact h j
  | cons b before ih =>
    have hx : (before ++ xs).isEmpty = false := by simp [hxs]
    have hy : (before ++ ys).isEmpty = false := by simp [hys]
    simp only [List.cons_append, readings, hx, hy]
    cases runStage e b false j with
    | ok a j' => simp only [ih j']
    | error f j' => rfl

theorem runStages_cons_of_isBlank (hc : c.isBlank = true) (cs : List Command) :
    runStages e (c :: cs) = runStages e cs := by
  funext j
  rw [runStages, Attempt.bind_of_ok (runStage_of_isBlank hc _ j)]

theorem readings_cons_of_isBlank (hc : c.isBlank = true) (cs : List Command) (j : Job τ) :
    readings e (c :: cs) j = readings e cs j := by
  simp [readings, runStage_of_isBlank hc, isEmpty_of_isBlank hc]

theorem readings_singleton (last : Bool) {cs : List Command} (hcs : cs.isEmpty = last)
    (hrest : ∀ j, readings e cs j = []) (j : Job τ) : readings e (l :: cs) j =
      if !l.isEmpty && j.shell.registry.isBuiltin l.name then [(j.builtinShell true).toRead]
      else [] := by
  have hread : (j.builtinShell last).toRead = (j.builtinShell true).toRead := rfl
  rw [readings, hcs, hread]
  cases runStage e l last j with
  | ok a j' => simp only [hrest, List.append_nil]
  | error f j' => rfl

/-- What a stage finds at its input does not depend on whether another comes after it. -/
theorem readings_last (hc : c.isBlank = true) (j : Job τ) :
    readings e [l] j = readings e [l, c] j := by
  rw [readings_singleton true rfl (fun _ => rfl),
    readings_singleton false rfl (readings_cons_of_isBlank hc [])]

/-- Each builtin finds the same at its input with a blank stage more. -/
theorem readings_insert (hc : c.isBlank = true) (before after : List Command) (j : Job τ)
    (hnone : before ++ after ≠ []) :
    readings e (before ++ c :: after) j = readings e (before ++ after) j := by
  cases after with
  | cons a after =>
    exact readings_append_congr (by simp) (by simp)
      (readings_cons_of_isBlank hc _) before j
  | nil =>
    rw [List.append_nil] at hnone ⊢
    obtain ⟨before, l, rfl⟩ := List.eq_nil_or_concat before |>.resolve_left hnone
    rw [List.concat_eq_append, List.append_assoc]
    exact (readings_append_congr (by simp) (by simp) (readings_last hc) before j).symm

end Job

end PipelineShell
