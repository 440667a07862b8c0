import PipelineShell.Proofs.Lag.Writers
import PipelineShell.Proofs.Survival.Stages

/-! How the open files of a job are closed. Each lets out what it holds, the last opened first, and
what a tree is behind with comes to it then. -/

namespace PipelineShell

open Attempt

namespace Attempt

variable {ε σ α : Type}

theorem ensure_assoc (x : Attempt ε σ α) (y z : Attempt ε σ Unit) :
    x.ensure (y.ensure z) = (x.ensure y).ensure z := by
  funext s
  cases hx : x s with
  | ok a t =>
    cases hy : y t with
    | ok b u => cases hz : z u <;> simp [Attempt.ensure, hx, hy, hz]
    | error f u => cases hz : z u <;> simp [Attempt.ensure, hx, hy, hz]
  | error e t =>
    cases hy : y t with
    | ok b u => cases hz : z u <;> simp [Attempt.ensure, hx, hy, hz]
    | error f u => cases hz : z u <;> simp [Attempt.ensure, hx, hy, hz]

theorem pure_ensure (x : Attempt ε σ Unit) : (pure () : Attempt ε σ Unit).ensure x = x := by
  funext s
  simp only [Attempt.ensure, Attempt.pure_apply]
  cases x s <;> rfl

end Attempt

namespace FileTree

variable {g : Option Lag} {t t' : FileTree}

def flushing (w : BlockWriter) : Change Unit :=
  BlockWriter.flush.within (fun t => (w, t)) fun p _ => p.2

def closing : List BlockWriter → Change Unit
  | [] => pure ()
  | w :: ws => (flushing w).ensure (closing ws)

theorem closing_append (ws vs : List BlockWriter) :
    closing (ws ++ vs) = (closing ws).ensure (closing vs) := by
  induction ws with
  | nil => exact (Attempt.pure_ensure _).symm
  | cons w ws ih => rw [List.cons_append, closing, closing, ih, Attempt.ensure_assoc]

theorem lags_flushing {w : BlockWriter} (hw : Settled g w.place) :
    Respects (Lags g) (flushing w) := by
  have hflush : Respects (Trails g (fun _ => True) BlockWriter.place) BlockWriter.flush :=
    BlockWriter.trails_flush fun _ _ _ _ => trivial
  refine hflush.within ?_ ?_
  · exact fun t t' h => ⟨rfl, hw, h, trivial⟩
  · exact fun _ _ _ _ _ h => h.lags

/-- Files at other places are closed alike. -/
theorem lags_closing {ws : List BlockWriter} (hws : ∀ w ∈ ws, Settled g w.place) :
    Respects (Lags g) (closing ws) := by
  induction ws with
  | nil => exact respects_pure _
  | cons w ws ih =>
    exact (lags_flushing (hws w (by simp))).ensure (ih fun v hv => hws v (by simp [hv]))

/-- With these files closed nothing is still to come. -/
def Due (g : Option Lag) (ws : List BlockWriter) : Prop :=
  ∀ t t', Lags g t t' → ∃ u, closing ws t = .ok () u ∧ Lags none u t'

theorem flushing_of_isEmpty {w : BlockWriter} (h : w.held.isEmpty = true) (t : FileTree) :
    flushing w t = .ok () t := by
  obtain ⟨v, hv, -⟩ := BlockWriter.flush_of_isEmpty (t := t) h
  simp only [flushing, Attempt.within, hv]

theorem closing_of_isEmpty {ws : List BlockWriter} (hws : ∀ w ∈ ws, w.held.isEmpty = true)
    (t : FileTree) : closing ws t = .ok () t := by
  induction ws with
  | nil => rfl
  | cons w ws ih =>
    have hw := flushing_of_isEmpty (hws w (by simp)) t
    exact Attempt.ensure_eq_ok.mpr ⟨t, hw, ih fun v hv => hws v (by simp [hv])⟩

theorem due_of_isEmpty {ws : List BlockWriter} (hws : ∀ w ∈ ws, w.held.isEmpty = true) :
    Due none ws :=
  fun t _ h => ⟨t, closing_of_isEmpty hws t, h⟩

theorem due_of_held {w : BlockWriter} {ws : List BlockWriter} {e : Entry}
    (hheld : w.held.isEmpty = false) (he : e ≠ .device .full)
    (hws : ∀ v ∈ ws, v.held.isEmpty = true) :
    Due (some ⟨w.place, e, w.change w.held⟩) (w :: ws) := by
  intro t t' h
  have hentry : t.get? w.place = some e := h.stays _ rfl
  have hroom : w.HasRoom w.held t := by
    refine .inr fun hf => he ?_
    rw [BlockWriter.OnFull, hentry] at hf
    exact Option.some.inj hf
  obtain ⟨v, hv, -⟩ := BlockWriter.exists_flush hroom
  refine ⟨w.released w.held t, Attempt.ensure_eq_ok.mpr ⟨_, ?_, closing_of_isEmpty hws _⟩, ?_⟩
  · simp only [flushing, Attempt.within, hv]
  · refine lags_none_iff.mpr ⟨?_, fun l => ?_⟩
    · rw [h.blocks, BlockWriter.released, hheld]
      exact (blockSize_revise t w.place _).symm
    · rw [h.ahead l, BlockWriter.released, hheld]
      rfl

/-- Closing the files that are due between others makes up for what the tree is behind with. -/
theorem agree_closing {later mine : List BlockWriter} (earlier : List BlockWriter)
    (h : Lags g t t') (hlater : ∀ w ∈ later, Settled g w.place) (hmine : Due g mine) :
    Agree (Lags none) (Lags none) (closing (later ++ (mine ++ earlier)) t)
      (closing (later ++ earlier) t') := by
  rw [closing_append, closing_append, closing_append]
  refine (lags_closing hlater t t' h).ensure fun t t' h => ?_
  obtain ⟨u, hu, hnone⟩ := hmine t t' h
  have hrest : (closing mine).ensure (closing earlier) t = closing earlier u := by
    simp only [Attempt.ensure, hu]
    cases closing earlier u <;> rfl
  rw [hrest]
  exact lags_closing (fun w _ => settled_none w.place) u t' hnone

end FileTree

namespace Job

open FileTree

variable {τ : Type} {j : Job τ}

def shut (j : Job τ) (fs : List (Nat × BlockWriter)) (t : FileTree) : Job τ :=
  { j.setTree t with
    files := []
    events := (fs.map fun f => Event.shut f.1).reverse ++ j.events }

theorem shutAll_eq {fs : List (Nat × BlockWriter)} (hj : j.Numbered) (hfs : ∀ f ∈ fs, f ∈ j.files)
    (hn : (fs.map (·.1)).Nodup) : shutAll fs j =
      match closing (fs.map (·.2)) j.shell.world.tree with
      | .ok _ t => .ok () (j.shut fs t)
      | .error f t => .error (.fault f) (j.shut fs t) := by
  induction fs generalizing j with
  | nil => rfl
  | cons f fs ih =>
    obtain ⟨hf, hn⟩ := List.nodup_cons.mp hn
    have hfile := hj.file?_eq_some_iff.mpr (hfs f (List.mem_cons_self ..))
    have hrest : ∀ w t, shutAll fs ((note (.shut f.1)).final (j.setFile f.1 w t)) =
        match closing (fs.map (·.2)) t with
        | .ok _ t => .ok () (j.shut (f :: fs) t)
        | .error e t => .error (.fault e) (j.shut (f :: fs) t) := by
      intro w t
      have hset := hj.setFile f.1 w t
      have hmem : ∀ h ∈ fs, h ∈ (j.setFile f.1 w t).files := fun h hh =>
        mem_files_setFile (hfs h (List.mem_cons_of_mem f hh))
          (fun he => hf (List.mem_map.mpr ⟨h, hh, he⟩)) _ _
      rw [ih (j := (note (.shut f.1)).final (j.setFile f.1 w t)) ⟨hset.nodup, hset.below⟩ hmem hn]
      have hshut : ∀ u, ((note (.shut f.1)).final (j.setFile f.1 w t)).shut fs u =
          j.shut (f :: fs) u := by
        intro u
        simp [shut, note, Attempt.final, Job.setFile, setTree]
      simp only [hshut]
      rfl
    rw [List.map_cons, closing, Attempt.ensure, flushing, Attempt.within]
    cases hflush : BlockWriter.flush (f.2, j.shell.world.tree) with
    | ok a p =>
      have hfirst : ((onFile f.1 BlockWriter.flush).ensure (note (.shut f.1)) : Job.Step τ Unit) j =
          .ok () ((note (.shut f.1)).final (j.setFile f.1 p.1 p.2)) := by
        refine Attempt.ensure_eq_ok.mpr ⟨j.setFile f.1 p.1 p.2, ?_, rfl⟩
        rw [onFile_of_file? hfile, hflush]
      rw [shutAll, Attempt.ensure, hfirst]
      dsimp only
      rw [hrest]
      cases closing (fs.map (·.2)) p.2 <;> rfl
    | error e p =>
      have hfirst : ((onFile f.1 BlockWriter.flush).ensure (note (.shut f.1)) : Job.Step τ Unit) j =
          .error (.fault e) ((note (.shut f.1)).final (j.setFile f.1 p.1 p.2)) := by
        refine Attempt.ensure_eq_error.mpr (.inr ⟨j.setFile f.1 p.1 p.2, ?_, rfl⟩)
        rw [onFile_of_file? hfile, hflush]
      rw [shutAll, Attempt.ensure, hfirst]
      dsimp only
      rw [hrest]
      cases closing (fs.map (·.2)) p.2 <;> rfl

/-- The end of a job comes to closing its files. -/
theorem finish_eq {room : Nat} (hj : j.Numbered) (hstuck : ¬j.Stuck room) : finish room j =
    match closing (j.files.map (·.2)) j.shell.world.tree with
    | .ok _ t => .ok () (j.stopped.shut j.files t)
    | .error f t => .error (.fault f) (j.stopped.shut j.files t) := by
  rw [finish_of_not_stuck hstuck, ← stopped_files, ← stopped_shell]
  exact shutAll_eq ⟨j.stopped_files ▸ hj.nodup, fun f hf =>
    j.stopped_fresh ▸ hj.below f (j.stopped_files ▸ hf)⟩ (fun _ hf => hf)
    (j.stopped_files ▸ hj.nodup)

end Job

end PipelineShell
