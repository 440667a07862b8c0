import PipelineShell.Proofs.Intake.Stages
import PipelineShell.Proofs.Touching.Calls
import PipelineShell.Proofs.Transparency.Stages

/-! What the stages of a job touch. As long as they are builtins or have no name, each touches its
own targets, seen from the directory that the shell is in when the stage begins. -/

namespace PipelineShell

namespace Job

open Attempt FileTree

section

variable {τ : Type} {e : Engine τ} {cs : List Command} {b c : Command} {last : Bool}
  {j j' k : Job τ}

/-- One of the stages comes to run, and begins with this job. -/
def Comes (e : Engine τ) (cs : List Command) (j : Job τ) (c : Command) (last : Bool) (k : Job τ) :
    Prop :=
  ∃ before after, cs = before ++ c :: after ∧ last = after.isEmpty ∧ passing e before j = .ok () k

theorem comes_first : Comes e (c :: cs) j c cs.isEmpty j :=
  ⟨[], cs, rfl, rfl, rfl⟩

theorem Comes.later (hstage : runStage e b cs.isEmpty j = .ok () j') (h : Comes e cs j' c last k) :
    Comes e (b :: cs) j c last k := by
  obtain ⟨before, after, rfl, hlast, hpass⟩ := h
  have hmore : (before ++ c :: after).isEmpty = false := by cases before <;> rfl
  rw [hmore] at hstage
  exact ⟨b :: before, after, rfl, hlast, bind_eq_ok.mpr ⟨(), j', hstage, hpass⟩⟩

theorem Comes.mem (h : Comes e cs j c last k) : c ∈ cs := by
  obtain ⟨before, after, rfl, -, -⟩ := h
  simp

/-- What every stage keeps where it begins, all of them do. -/
theorem keeps_of_comes {R : Job τ → Job τ → Prop} [IsPreorder (Job τ) R]
    (h : ∀ c last k, Comes e cs j c last k → R k ((runStage e c last).final k)) :
    R j ((runStages e cs).final j) := by
  induction cs generalizing j with
  | nil => exact refl_of R j
  | cons c cs ih =>
    have hstage := h c cs.isEmpty j comes_first
    rw [runStages]
    cases hrun : runStage e c cs.isEmpty j with
    | error f j' =>
      rw [final_of_error hrun] at hstage
      rwa [final_bind_of_error hrun]
    | ok a j' =>
      rw [final_of_ok hrun] at hstage
      rw [final_bind_of_ok hrun]
      exact trans_of R hstage (ih fun c last k hcomes => h c last k (hcomes.later hrun))

theorem exists_comes_of_ne {α : Type} {f : Job τ → α} (h : f ((runStages e cs).final j) ≠ f j) :
    ∃ c last k, Comes e cs j c last k ∧ f ((runStage e c last).final k) ≠ f k ∧
      f ((runStage e c last).final k) = f ((runStages e cs).final j) := by
  induction cs generalizing j with
  | nil => exact absurd rfl h
  | cons c cs ih =>
    rw [runStages] at h ⊢
    cases hrun : runStage e c cs.isEmpty j with
    | error g j' =>
      have hfinal := final_of_error hrun
      rw [final_bind_of_error hrun] at h ⊢
      exact ⟨c, _, j, comes_first, hfinal ▸ h, by rw [hfinal]⟩
    | ok a j' =>
      have hfinal := final_of_ok hrun
      rw [final_bind_of_ok hrun] at h ⊢
      by_cases hlater : f ((runStages e cs).final j') = f j'
      · exact ⟨c, _, j, comes_first, by rw [hfinal, ← hlater]; exact h, by rw [hfinal, hlater]⟩
      · obtain ⟨c', last, k, hcomes, hne, heq⟩ := ih hlater
        exact ⟨c', last, k, hcomes.later hrun, hne, heq⟩

/-- The path is a target of a stage that comes to run, which sees it from this directory. -/
def Targets (e : Engine τ) (cs : List Command) (j : Job τ) (dir : Location) (path : String) :
    Prop :=
  ∃ c last k stream, Comes e cs j c last k ∧ (c.redirection.get stream).target = some path ∧
    dir = k.shell.world.dir

variable {W : Location → String → Prop}

/-- The open files of the job are open targets. -/
def Owns (W : Location → String → Prop) (j : Job τ) : Prop :=
  ∀ f ∈ j.files, Owned W j.shell.world.tree f.2.place

/-- The wiring is as before. If it is the shell's own, nothing but targets has been touched, and all
open files are targets if they were. -/
structure TouchesOnly (W : Location → String → Prop) (j k : Job τ) : Prop where
  wiring : k.shell.wiring = j.shell.wiring
  touches : j.shell.wiring = .own → Owns W j →
    Owns W k ∧ Touches W j.shell.world.tree k.shell.world.tree

instance : IsPreorder (Job τ) (TouchesOnly W) where
  refl j := ⟨rfl, fun _ h => ⟨h, refl_of (Touches W) j.shell.world.tree⟩⟩
  trans _ _ _ h h' := by
    refine ⟨h'.wiring.trans h.wiring, fun hw howns => ?_⟩
    obtain ⟨howns₁, htouches⟩ := h.touches hw howns
    obtain ⟨howns₂, htouches'⟩ := h'.touches (h.wiring.trans hw) howns₁
    exact ⟨howns₂, trans_of (Touches W) htouches htouches'⟩

theorem touchesOnly_of_files (hw : k.shell.wiring = j.shell.wiring) (hfiles : k.files ⊆ j.files)
    (htouches : j.shell.wiring = .own → Touches W j.shell.world.tree k.shell.world.tree) :
    TouchesOnly W j k :=
  ⟨hw, fun hown howns =>
    ⟨fun f hf => (howns f (hfiles hf)).touches (htouches hown), htouches hown⟩⟩

theorem touchesOnly_of_same (hshell : k.shell = j.shell) (hfiles : k.files = j.files) :
    TouchesOnly W j k := by
  refine touchesOnly_of_files (by rw [hshell]) (by rw [hfiles]; exact List.Subset.refl _)
    fun _ => ?_
  rw [hshell]
  exact refl_of (Touches W) _

theorem touchesOnly_openDestination {d : Destination}
    (hW : ∀ path, d.target = some path → W j.shell.world.dir path) :
    TouchesOnly W j ((openDestination d).final j) := by
  have htouches := touches_openIn hW j.shell.world.tree
  rw [Attempt.final, openDestination_apply, Shell.openHeld_apply]
  cases hopen : d.openIn j.shell.world.dir j.shell.world.tree with
  | error f u =>
    rw [final_of_error hopen] at htouches
    exact touchesOnly_of_files rfl (List.Subset.refl _) fun _ => htouches
  | ok place u =>
    rw [final_of_ok hopen] at htouches
    cases place with
    | none => exact touchesOnly_of_files rfl (List.Subset.refl _) fun _ => htouches
    | some place =>
      refine ⟨rfl, fun _ howns => ⟨fun f hf => ?_, htouches⟩⟩
      rcases List.mem_cons.mp hf with rfl | hf
      · exact owned_of_openIn hW hopen
      · exact (howns f hf).touches htouches

theorem touchesOnly_onFile (n : Nat) {step : BlockWriter.Writing Unit}
    (h : Keeps (BlockWriter.TouchesOnly W) step) :
    Keeps (TouchesOnly W) (onFile n step : Job.Step τ Unit) := by
  intro j
  cases hfile : j.file? n with
  | none =>
    have hsame : onFile n step j = .ok () j := by simp only [onFile, hfile]
    rw [final_of_ok hsame]
    exact refl_of (TouchesOnly W) j
  | some w =>
    have hstep := h (w, j.shell.world.tree)
    have hmem : ∃ f ∈ j.files, f.2 = w := by
      obtain ⟨_, _, hsplit, -⟩ := List.lookup_eq_some_iff.mp hfile
      exact ⟨(n, w), by rw [hsplit]; simp, rfl⟩
    obtain ⟨f, hf, rfl⟩ := hmem
    rw [final_onFile hfile]
    refine ⟨rfl, fun _ howns => ?_⟩
    have htouches := hstep.touches (howns f hf)
    refine ⟨fun g hg => ?_, htouches⟩
    obtain ⟨g, hmem, rfl⟩ := List.mem_map.mp hg
    have howned : Owned W (step.final (f.2, j.shell.world.tree)).2
        (if g.1 = n then (n, (step.final (f.2, j.shell.world.tree)).1) else g).2.place := by
      split
      · rw [hstep.place]
        exact (howns f hf).touches htouches
      · exact (howns g hmem).touches htouches
    exact howned

theorem touchesOnly_putAll (n : Nat) (pieces : List ByteArray) :
    Keeps (TouchesOnly W) (putAll n pieces : Job.Step τ (Option Nat)) := by
  induction pieces with
  | nil => exact keeps_pure _
  | cons piece pieces ih =>
    refine Keeps.bind (fun j => ?_) fun result => ?_
    · have hput := touchesOnly_onFile (W := W) n (BlockWriter.touchesOnly_put piece) j
      unfold Attempt.final Attempt.outcome at *
      cases hj : onFile n (BlockWriter.put piece) j <;> (rw [hj] at hput; exact hput)
    · cases result with
      | ok _ => exact ih
      | error _ => exact keeps_pure _

theorem touchesOnly_pour (n : Nat) (p : Pending) :
    Keeps (TouchesOnly W) (pour e n p : Job.Step τ Unit) := by
  cases p with
  | nothing => exact keeps_pure _
  | text s => exact touchesOnly_onFile n (BlockWriter.carries_touchesOnly.write _)
  | stream pipe pieces =>
    refine Keeps.bind (fun j => touchesOnly_of_same rfl rfl) fun _ => Keeps.bind
      (fun j => touchesOnly_of_same rfl rfl) fun _ => (touchesOnly_putAll n _).bind fun left => ?_
    cases left <;> exact fun j => touchesOnly_of_same rfl rfl

theorem touchesOnly_takeIn (out : Option Nat) :
    Keeps (TouchesOnly W) (takeIn e out : Job.Step τ Unit) := by
  cases out with
  | none => exact keeps_pure _
  | some n =>
    refine keeps_get fun j => ?_
    exact ((touchesOnly_pour n j.pending).bind fun _ => fun j => touchesOnly_of_same rfl rfl) j

theorem touchesOnly_runEmpty {r : Redirection}
    (hW : ∀ stream path, (r.get stream).target = some path → W j.shell.world.dir path) :
    TouchesOnly W j ((runEmpty e r).final j) := by
  have herr := touchesOnly_openDestination (hW .stderr)
  have hdir := (worksOn_openDestination r.stderr j).dir
  rw [runEmpty_eq]
  cases hopen : openDestination r.stderr j with
  | error f j₁ =>
    rw [final_bind_of_error hopen, ← final_of_error hopen]
    exact herr
  | ok a j₁ =>
    rw [final_of_ok hopen] at hdir
    have herr₁ : TouchesOnly W j j₁ := final_of_ok hopen ▸ herr
    have hout : TouchesOnly W j₁ ((openDestination r.stdout).final j₁) := by
      refine touchesOnly_openDestination fun path hpath => ?_
      rw [hdir]
      exact hW .stdout path hpath
    rw [final_bind_of_ok hopen]
    refine trans_of (TouchesOnly W) herr₁ ?_
    cases hopen' : openDestination r.stdout j₁ with
    | error f j₂ =>
      rw [final_bind_of_error hopen', ← final_of_error hopen']
      exact hout
    | ok out j₂ =>
      rw [final_bind_of_ok hopen']
      refine trans_of (TouchesOnly W) ?_ (touchesOnly_takeIn out j₂)
      rw [← final_of_ok hopen']
      exact hout

theorem files_runBuiltin (tag : τ) : ((runBuiltin e tag c last).final j).files = j.files := by
  rw [Attempt.final, runBuiltin_apply]
  cases Shell.invoke e tag c (j.builtinShell last) <;> rfl

theorem unread_runBuiltin (tag : τ) : ((runBuiltin e tag c last).final j).unread = j.unread := by
  rw [Attempt.final, runBuiltin_apply]
  cases Shell.invoke e tag c (j.builtinShell last) <;> rfl

theorem touchesOnly_runBuiltin (he : e.OnlyRoams) (tag : τ)
    (hW : ∀ stream path, (c.redirection.get stream).target = some path →
      W j.shell.world.dir path) :
    TouchesOnly W j ((runBuiltin e tag c last).final j) := by
  refine touchesOnly_of_files ?_ (by rw [files_runBuiltin]; exact List.Subset.refl _) fun hw => ?_
  · rw [shell_runBuiltin]
  · rw [shell_runBuiltin]
    refine Shell.touches_invoke (s := j.builtinShell last) he tag (fun other stream => ?_) hW
    cases other <;> cases last <;>
      simp [builtinShell, Shell.stageWiring, Wiring.outlet, Wiring.stageOutput, hw, Wiring.own]

theorem touchesOnly_runStage (he : e.OnlyRoams)
    (hc : c.isEmpty = true ∨ j.shell.registry.isBuiltin c.name = true)
    (hW : ∀ stream path, (c.redirection.get stream).target = some path →
      W j.shell.world.dir path) :
    TouchesOnly W j ((runStage e c last).final j) := by
  cases hempty : c.isEmpty with
  | true =>
    rw [runStage_of_isEmpty hempty]
    exact touchesOnly_runEmpty hW
  | false =>
    have hb := hc.resolve_left (by simp [hempty])
    obtain ⟨tag, htag⟩ := resolve_of_isBuiltin hb
    rw [Attempt.final, runStage_of_resolve hempty hb htag, ← Attempt.final]
    exact touchesOnly_runBuiltin he tag hW

theorem Comes.registry (he : e.OnlyRoams) (h : Comes e cs j c last k) :
    k.shell.registry = j.shell.registry := by
  obtain ⟨before, after, -, -, hpass⟩ := h
  exact ((withholds_passing he.goesByWiring before).ok hpass).registry

theorem touchesOnly_runStages (he : e.OnlyRoams)
    (hcs : ∀ c ∈ cs, c.isEmpty = true ∨ j.shell.registry.isBuiltin c.name = true)
    (hW : ∀ dir path, Targets e cs j dir path → W dir path) :
    TouchesOnly W j ((runStages e cs).final j) := by
  refine keeps_of_comes fun c last k h => touchesOnly_runStage he ?_ fun stream path hpath => ?_
  · rw [h.registry he]
    exact hcs c h.mem
  · exact hW _ _ ⟨c, last, k, stream, h, hpath, rfl⟩

theorem touchesOnly_emit : Keeps (TouchesOnly W) (emit : Job.Step τ Unit) := by
  intro j
  by_cases hw : j.shell.wiring = .own
  · obtain ⟨j', hemit, hshell, hfiles, -⟩ := exists_emit_eq hw
    rw [final_of_ok hemit]
    refine touchesOnly_of_files (by rw [hshell]) (by rw [hfiles]; exact List.Subset.refl _)
      fun _ => ?_
    rw [hshell]
    exact refl_of (Touches W) _
  · exact ⟨(orderly_emit j).rests.wiring, fun h => absurd h hw⟩

theorem touchesOnly_finish (room : Nat) :
    Keeps (TouchesOnly W) (finish room : Job.Step τ Unit) := by
  have hshut : ∀ fs, Keeps (TouchesOnly W) (shutAll fs : Job.Step τ Unit) := by
    intro fs
    induction fs with
    | nil => exact keeps_modify fun j => touchesOnly_of_files rfl (List.nil_subset _) fun _ =>
        refl_of (Touches W) _
    | cons f fs ih =>
      exact ((touchesOnly_onFile f.1 BlockWriter.carries_touchesOnly.flush).ensure
        fun j => touchesOnly_of_same rfl rfl).ensure ih
  intro j
  by_cases hstuck : j.Stuck room
  · obtain ⟨before, -, hfinish⟩ := finish_of_stuck hstuck
    rw [final_of_error hfinish]
    exact touchesOnly_of_same j.dropped_shell j.dropped_files
  · have hstopped : TouchesOnly W j j.stopped := touchesOnly_of_same j.stopped_shell j.stopped_files
    have hend := trans_of (TouchesOnly W) hstopped (hshut j.files j.stopped)
    rwa [Attempt.final, finish_of_not_stuck hstuck, ← Attempt.final]

/-- A job of builtins touches the targets of its stages, and what is missing on the way to them. -/
theorem touches_run (he : e.OnlyRoams) {p : Pipeline} {s : Shell τ} (hw : s.wiring = .own)
    (hp : ∀ c ∈ p.stages, c.isEmpty = true ∨ s.registry.isBuiltin c.name = true) :
    Touches (Targets e p.stages (Job.start s)) s.world.tree
      ((run e p).final (Job.start s)).shell.world.tree := by
  have hstages : TouchesOnly (Targets e p.stages (Job.start s)) (Job.start s)
      ((runStages e p.stages).final (Job.start s)) :=
    touchesOnly_runStages he hp fun dir path h => h
  have hmost : TouchesOnly (Targets e p.stages (Job.start s)) (Job.start s)
      ((runStages e p.stages >>= fun _ => emit).final (Job.start s)) := by
    cases hrun : runStages e p.stages (Job.start s) with
    | error f j => rwa [final_bind_of_error hrun, ← final_of_error hrun]
    | ok a j =>
      rw [final_bind_of_ok hrun]
      rw [final_of_ok hrun] at hstages
      exact trans_of (TouchesOnly _) hstages (touchesOnly_emit j)
  rw [run, final_ensure]
  exact ((trans_of (TouchesOnly _) hmost (touchesOnly_finish _ _)).touches hw
    fun _ hmem => absurd hmem List.not_mem_nil).2

end

end Job

end PipelineShell
