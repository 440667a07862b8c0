import PipelineShell.Proofs.Dataflow.Execute
import PipelineShell.Proofs.Touching.Stages

/-! What a pipeline of builtins may change, however it ends: of the files its targets, of the rest
of the shell the directory and the input, and these only through the two builtins that are for
it. -/

namespace PipelineShell

namespace Shell

variable {τ : Type} {s t : Shell τ}

/-- The variables, the table of builtins and the history are as before. -/
structure SameRecords (s t : Shell τ) : Prop where
  env : t.world.env = s.world.env
  registry : t.registry = s.registry
  history : t.history = s.history

instance : IsPreorder (Shell τ) SameRecords where
  refl _ := ⟨rfl, rfl, rfl⟩
  trans _ _ _ h h' :=
    ⟨h'.env.trans h.env, h'.registry.trans h.registry, h'.history.trans h.history⟩

theorem WorksOn.sameRecords (h : WorksOn s t) : SameRecords s t :=
  ⟨by rw [h.same], by rw [h.same], by rw [h.same]⟩

theorem sameRecords_drawn (s : Shell τ) (amount : Nat) : SameRecords s (Job.drawn s amount) := by
  unfold Job.drawn
  cases s.behind <;> exact ⟨rfl, rfl, rfl⟩

theorem sameRecords_run (b : Builtin) (args : List String) :
    Attempt.Keeps SameRecords (b.run args : Shell.Step τ Bool) := by
  refine Builtin.keeps_run ⟨fun _ _ => WorksOn.sameRecords, fun _ _ s => ?_,
    fun _ _ _ _ => ⟨rfl, rfl, rfl⟩, fun _ _ _ => ⟨rfl, rfl, rfl⟩⟩
  rw [final_readAll]
  cases s.wiring.stdin <;> exact ⟨rfl, rfl, rfl⟩

end Shell

namespace Job

open Attempt

section

variable {e : Engine Builtin} {c : Command} {cs : List Command} {last : Bool} {j : Job Builtin}

/-- The stage is the builtin `cd`, and the directory that it names can be entered. -/
def Goes (c : Command) (last : Bool) (j : Job Builtin) (dir : Location) : Prop :=
  ∃ entry world, Enters c last j .cd entry ∧ dir = world.dir ∧
    entry.world.enter (Builtin.expandHome entry.world (c.args.head?.getD "~")) = .ok world

variable (he : e.handler = Builtin.run)

include he

theorem dir_runStage (hc : c.isEmpty = true ∨ j.shell.registry.isBuiltin c.name = true) :
    ((runStage e c last).final j).shell.world.dir = j.shell.world.dir ∨
      Goes c last j ((runStage e c last).final j).shell.world.dir := by
  cases hempty : c.isEmpty with
  | true =>
    rw [runStage_of_isEmpty hempty]
    exact .inl (worksOn_runEmpty c.redirection j).dir
  | false =>
    have hb := hc.resolve_left (by simp [hempty])
    obtain ⟨tag, htag⟩ := resolve_of_isBuiltin hb
    rw [Attempt.final, runStage_of_resolve hempty hb htag, ← Attempt.final, shell_runBuiltin]
    by_cases hopen : ∃ t, Shell.openTargets c.redirection (j.builtinShell last) = .ok () t
    · obtain ⟨t, ht⟩ := hopen
      have hentry : Enters c last j tag { t with wiring := Shell.rewire c.redirection t.wiring } :=
        ⟨hempty, hb, htag, t, ht, rfl⟩
      have hfiles := ((Shell.keeps_openTargets _).ok ht).dir
      have hcalled : ((Shell.invoke e tag c).final (j.builtinShell last)).world.dir =
          ((e.handler tag c.args).final
            { t with wiring := Shell.rewire c.redirection t.wiring }).world.dir :=
        (Shell.worksOn_invoke ht).dir
      dsimp only
      rw [hcalled, he]
      rcases Shell.dir_run tag c.args { t with wiring := Shell.rewire c.redirection t.wiring } with
        hsame | ⟨rfl, world, henter, hdir⟩
      · exact .inl (hsame.trans hfiles)
      · exact .inr ⟨_, world, hentry, hdir, henter⟩
    · exact .inl (Shell.worksOn_invoke_of_unopened fun t ht => hopen ⟨t, ht⟩).dir

variable (hcs : ∀ c ∈ cs, c.isEmpty = true ∨ j.shell.registry.isBuiltin c.name = true)

include hcs

theorem exists_goes (h : ((runStages e cs).final j).shell.world.dir ≠ j.shell.world.dir) :
    ∃ c last k, Comes e cs j c last k ∧
      Goes c last k ((runStages e cs).final j).shell.world.dir := by
  obtain ⟨c, last, k, hcomes, hne, hdir⟩ := exists_comes_of_ne (f := fun j => j.shell.world.dir) h
  have hkind : c.isEmpty = true ∨ k.shell.registry.isBuiltin c.name = true := by
    rw [hcomes.registry (Engine.onlyRoams_of_run he)]
    exact hcs c hcomes.mem
  have hgoes := (dir_runStage he hkind).resolve_left hne
  exact ⟨c, last, k, hcomes, by rw [← hdir]; exact hgoes⟩

theorem Draws.exists_cat {text : String} (hp : j.pending = .nothing) (hw : j.shell.wiring = .own)
    (h : Draws e cs j text) : j.shell.ReadsUp ((runStages e cs).final j).shell ∧
      ∃ before c after k entry, cs = before ++ c :: after ∧
        (∀ b ∈ before, b.isEmpty = true ∧ (b.redirection.get .stdout).target = none) ∧
        passing e before j = .ok () k ∧ Enters c after.isEmpty k .cat entry ∧ c.args = [] := by
  induction h with
  | @here c cs j text htakes =>
    have hnamed := htakes.isEmpty
    have hb := (hcs c List.mem_cons_self).resolve_left (by simp [hnamed])
    cases htakes with
    | builtin hentry hargs =>
      have hreads := readsUp_of_enters he hp (by rw [hw]; rfl) hentry hargs
      have hfeeds : c.feeds = true := by simp [Command.feeds, hnamed]
      have hrest := sameInput_runStages_of_feeds (j := j) (Engine.onlyRoams_of_run he) hfeeds cs
      exact ⟨hreads.congr (refl_of Shell.SameInput j.shell) hrest, [], c, cs, j, _, rfl,
        List.forall_mem_nil _, rfl, hentry, hargs⟩
    | fed hc hstarts => exact absurd (isBuiltin_of_starts hc hstarts) (by simp [hb])
    | shares hc hstarts => exact absurd (isBuiltin_of_starts hc hstarts) (by simp [hb])
  | @later b cs j j' text hb hstage hdraws ih =>
    have hfeeds : b.isEmpty = true ∧ (b.redirection.get .stdout).target = none := by
      simpa [Command.feeds, Command.redirects, Redirection.get] using hb
    have hworks : j.shell.WorksOn j'.shell := by
      rw [runStage_of_isEmpty hfeeds.1] at hstage
      exact (worksOn_runEmpty b.redirection).ok hstage
    have hregistry : j'.shell.registry = j.shell.registry := by rw [hworks.same]
    have hwiring := ((steady_runStage b _).ok hstage).wiring
    obtain ⟨hreads, before, c, after, k, entry, rfl, hbefore, hpass, hentry, hargs⟩ :=
      ih (fun c hc => by rw [hregistry]; exact hcs c (List.mem_cons_of_mem b hc))
        ((pending_of_not_feeds hb hstage).trans hp) (hwiring.trans hw)
    have hmore : (before ++ c :: after).isEmpty = false := by cases before <;> rfl
    refine ⟨?_, b :: before, c, after, k, entry, rfl, List.forall_mem_cons.mpr ⟨hfeeds, hbefore⟩,
      bind_eq_ok.mpr ⟨(), j', hmore ▸ hstage, hpass⟩, hentry, hargs⟩
    rw [runStages, final_bind_of_ok hstage]
    exact hreads.congr hworks.sameInput (refl_of Shell.SameInput _)

end

end Job

/-- Of all that there is, a pipeline has changed no more than this. -/
structure Pipeline.Confined (e : Engine Builtin) (p : Pipeline) (s t : Shell Builtin) : Prop where
  /-- Where an entry is new or another, the path of a target leads, seen from the directory in which
  its stage began, or there is a new directory on the way of that path. -/
  files : ∀ l, t.world.tree.get? l ≠ s.world.tree.get? l → ∃ before c after j stream path,
    p.stages = before ++ c :: after ∧ Job.passing e before (Job.start s) = .ok () j ∧
      (c.redirection.get stream).target = some path ∧
      ((∃ entry, t.world.tree.reach j.shell.world.dir path = .ok (l, entry) ∧
          entry ≠ .directory) ∨
        s.world.tree.get? l = none ∧ ∃ q rest, path = q ++ "/" ++ rest ∧
          t.world.tree.reach j.shell.world.dir q = .ok (l, .directory))
  /-- Nothing is removed, and nothing is made into a thing of another kind. -/
  there : ∀ l entry, s.world.tree.get? l = some entry →
    ∃ entry', t.world.tree.get? l = some entry' ∧ entry'.kind = entry.kind
  records : s.SameRecords t
  /-- No stage changes the directory but by going to one that can be entered. -/
  stays : ∀ before c after j, p.stages = before ++ c :: after →
    Job.passing e before (Job.start s) = .ok () j →
      ((Job.runStage e c after.isEmpty).final j).shell.world.dir = j.shell.world.dir ∨
        Job.Goes c after.isEmpty j ((Job.runStage e c after.isEmpty).final j).shell.world.dir
  dir : t.world.dir ≠ s.world.dir → ∃ before c after j, p.stages = before ++ c :: after ∧
    Job.passing e before (Job.start s) = .ok () j ∧ Job.Goes c after.isEmpty j t.world.dir
  /-- The input is read by the first stage that has a name, all of it, and that stage is `cat`. -/
  input : ¬s.SameInput t → s.ReadsUp t ∧ ∃ before c after j entry,
    p.stages = before ++ c :: after ∧
      (∀ b ∈ before, b.isEmpty = true ∧ (b.redirection.get .stdout).target = none) ∧
      Job.passing e before (Job.start s) = .ok () j ∧
      Job.Enters c after.isEmpty j .cat entry ∧ c.args = []

namespace Pipeline

variable {e : Engine Builtin} {p : Pipeline} {s : Shell Builtin}

theorem final_execute (h : p.isIdle = false) :
    (p.execute e).final s = ((Job.run e p).final (Job.start s)).shell := by
  unfold Attempt.final Pipeline.execute
  rw [h]
  cases Job.run e p (Job.start s) <;> rfl

theorem worksOn_after (j : Job Builtin) :
    Shell.WorksOn ((Job.runStages e p.stages).final j).shell ((Job.run e p).final j).shell := by
  have hfinish := Job.worksOn_finish e.host.pipeRoom
    ((Job.runStages e p.stages >>= fun _ => Job.emit).final j)
  rw [Job.run, Attempt.final_ensure]
  refine trans_of Shell.WorksOn ?_ hfinish
  cases h : Job.runStages e p.stages j with
  | error f j' =>
    rw [Attempt.final_bind_of_error h, Attempt.final_of_error h]
    exact refl_of Shell.WorksOn _
  | ok a j' =>
    rw [Attempt.final_bind_of_ok h, Attempt.final_of_ok h]
    exact Job.worksOn_emit j'

theorem confined_self (hstays : ∀ before c after j, p.stages = before ++ c :: after →
    Job.passing e before (Job.start s) = .ok () j →
      ((Job.runStage e c after.isEmpty).final j).shell.world.dir = j.shell.world.dir ∨
        Job.Goes c after.isEmpty j ((Job.runStage e c after.isEmpty).final j).shell.world.dir) :
    Confined e p s s where
  files _ h := absurd rfl h
  there _ entry h := ⟨entry, h, rfl⟩
  records := refl_of Shell.SameRecords s
  stays := hstays
  dir h := absurd rfl h
  input h := absurd (refl_of Shell.SameInput s) h

theorem dir_stage (he : e.handler = Builtin.run)
    (hp : ∀ c ∈ p.stages, c.isEmpty = true ∨ s.registry.isBuiltin c.name = true)
    {before after : List Command} {c : Command} {j : Job Builtin}
    (hstages : p.stages = before ++ c :: after)
    (hpass : Job.passing e before (Job.start s) = .ok () j) :
    ((Job.runStage e c after.isEmpty).final j).shell.world.dir = j.shell.world.dir ∨
      Job.Goes c after.isEmpty j ((Job.runStage e c after.isEmpty).final j).shell.world.dir := by
  have hcomes : Job.Comes e p.stages (Job.start s) c after.isEmpty j :=
    ⟨before, after, hstages, rfl, hpass⟩
  refine Job.dir_runStage he ?_
  rw [hcomes.registry (Engine.onlyRoams_of_run he)]
  exact hp c hcomes.mem

/-- Be there a failure or not: of the files only targets of redirections change, and directories
that were missing on the way to them. -/
theorem confined_execute (he : e.handler = Builtin.run) (hw : s.wiring = .own)
    (hp : ∀ c ∈ p.stages, c.isEmpty = true ∨ s.registry.isBuiltin c.name = true) :
    Confined e p s ((p.execute e).final s) := by
  cases hidle : p.isIdle with
  | true =>
    have hnothing : p.execute e s = .ok true s := by simp [execute, hidle]
    rw [Attempt.final_of_ok hnothing]
    exact confined_self fun before c after j => dir_stage he hp
  | false =>
    have htouches := Job.touches_run (Engine.onlyRoams_of_run he) hw hp
    have hrecords : s.SameRecords ((p.execute e).final s) :=
      keeps_execute (fun _ _ => Shell.WorksOn.sameRecords) Shell.sameRecords_drawn
        (fun tag args => he ▸ Shell.sameRecords_run tag args) p s
    have hafter := worksOn_after (e := e) (p := p) (Job.start s)
    rw [final_execute hidle] at hrecords ⊢
    refine ⟨fun l hl => ?_, htouches.there, hrecords, fun before c after j => dir_stage he hp,
      fun hdir => ?_, fun hinput => ?_⟩
    · obtain ⟨_, path, ⟨c, last, j, stream, ⟨before, after, hstages, -, hpass⟩, hpath, rfl⟩, h⟩ :=
        (htouches.touched l).resolve_left hl
      exact ⟨before, c, after, j, stream, path, hstages, hpass, hpath, h⟩
    · rw [hafter.dir] at hdir ⊢
      obtain ⟨c, _, j, ⟨before, after, hstages, rfl, hpass⟩, hgoes⟩ := Job.exists_goes he hp hdir
      exact ⟨before, c, after, j, hstages, hpass, hgoes⟩
    · have hdraws : ∃ text, Job.Draws e p.stages (Job.start s) text := by
        refine Classical.byContradiction fun hnone => hinput ?_
        exact trans_of Shell.SameInput
          (Job.sameInput_of_not_draws he rfl hw (not_exists.mp hnone)) hafter.sameInput
      obtain ⟨text, hdraws⟩ := hdraws
      obtain ⟨hreads, hcat⟩ := hdraws.exists_cat he hp rfl hw
      exact ⟨hreads.congr (refl_of Shell.SameInput s) hafter.sameInput, hcat⟩

def trialMaking : Pipeline :=
  ⟨⟨"echo", ["hi"], ⟨⟨some "d/out", false⟩, ⟨none, false⟩⟩⟩, []⟩

theorem confined_execute_making :
    Confined Dataflow.trialEngine trialMaking Dataflow.trialShell
      ((trialMaking.execute Dataflow.trialEngine).final Dataflow.trialShell) ∧
    ((trialMaking.execute Dataflow.trialEngine).final Dataflow.trialShell).world.tree.get?
      ["d", "out"] = some (.file (Text.encode "hi\n") false) :=
  ⟨confined_execute rfl rfl (by decide), by decide +kernel⟩

end Pipeline

end PipelineShell
