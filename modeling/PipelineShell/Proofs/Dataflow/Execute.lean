import PipelineShell.Proofs.Dataflow.Stages

/-! A pipeline of builtins and of stages without a name runs as the fold says, from its first stage
to the closing of its targets. -/

namespace PipelineShell.Dataflow

open Shell

variable {τ : Type} {e : Engine τ} {r : Registry τ} {before cs : List Command} {c : Command}
  {x y : Current τ} {j j' : Job τ}

/-- A text is pending, or nothing is in place of the empty one. -/
def Leaves (text : String) (p : Pending) : Prop :=
  p = .text text ∨ p = .nothing ∧ text = ""

theorem Follows.leaves (hj : Follows r before x j) : Leaves x.text j.pending := by
  cases hf : before.any Command.feeds with
  | true => exact .inl (by simp [hj.pending, hf])
  | false => exact .inr ⟨by simp [hj.pending, hf], hj.blank hf⟩

/-- The job before the stages that are still to come, or after all of them. -/
structure Ready (r : Registry τ) (before cs : List Command) (x : Current τ) (j : Job τ) : Prop
    extends Stands r x j where
  next : cs ≠ [] → Follows r before x j
  leaves : cs = [] → Leaves (leftover before x.text) j.pending

theorem ready_of_isEmpty (hj : Ready r before (c :: cs) x j) (hc : c.isEmpty = true)
    (h : Job.runStage e c cs.isEmpty j = .ok () j') : ∃ y, Passed c.redirection x y ∧
      Ready r (before ++ [c]) cs y j' ∧ j'.keepGoing = j.keepGoing := by
  rw [Job.runStage, if_pos hc] at h
  obtain ⟨y, hp, hf, hk⟩ := passed_of_runEmpty (hj.next (List.cons_ne_nil _ _)) hc h
  refine ⟨y, hp, ⟨hf.toStands, fun _ => hf, fun _ => ?_⟩, hk⟩
  simpa [leftover, hc] using hf.leaves

theorem ready_of_isBuiltin (he : e.GoesByWiring) (hj : Ready r before (c :: cs) x j)
    (hc : c.isEmpty = false) (hb : r.isBuiltin c.name = true)
    (h : Job.runStage e c cs.isEmpty j = .ok () j') : ∃ k : Call τ, ∃ y, k.command = c ∧
      Called e before cs.isEmpty x k y ∧ Ready r (before ++ [c]) cs y j' ∧
      j'.keepGoing = (j.keepGoing && k.goesOn) := by
  obtain ⟨tag, htag⟩ := Job.resolve_of_isBuiltin hb
  have hreg : j.shell.registry = r := hj.shell ▸ hj.registry
  have hrun : Job.runBuiltin e tag c cs.isEmpty j = .ok () j' := by
    simpa [Job.runStage, hc, Attempt.bind_apply, hreg, hb, htag] using h
  obtain ⟨k, y, hk, hcalled, hs, hnext, hover, hgo⟩ :=
    called_of_runBuiltin he (hj.next (List.cons_ne_nil _ _)) hc htag hrun
  refine ⟨k, y, hk, hcalled, ⟨hs, fun hne => hnext (by simpa using hne), fun hnil => ?_⟩, hgo⟩
  refine .inr ⟨hover (by simp [hnil]), ?_⟩
  simp [leftover, hc]

/-- The stages of a job do together what the fold says. -/
theorem flows_of_runStages (he : e.GoesByWiring)
    (hcs : ∀ c ∈ cs, c.isEmpty = true ∨ r.isBuiltin c.name = true) (hj : Ready r before cs x j)
    (h : Job.runStages e cs j = .ok () j') : ∃ calls y, Flows e before cs x calls y ∧
      Ready r (before ++ cs) [] y j' ∧ j'.keepGoing = (j.keepGoing && calls.all Call.goesOn) ∧
      calls.map (·.command) = cs.filter (!·.isEmpty) := by
  induction cs generalizing before x j with
  | nil =>
    cases h
    exact ⟨[], x, .done before x, by simpa using hj, by simp, rfl⟩
  | cons c cs ih =>
    obtain ⟨_, j₁, hstage, hrest⟩ := Attempt.bind_eq_ok.mp h
    have hcs' := fun c' hc' => hcs c' (List.mem_cons_of_mem c hc')
    cases hc : c.isEmpty with
    | true =>
      obtain ⟨y, hp, hready, hk⟩ := ready_of_isEmpty hj hc hstage
      obtain ⟨calls, z, hflows, hz, hgo, hcalls⟩ := ih hcs' hready hrest
      refine ⟨calls, z, .pass hc hp hflows, ?_, by rw [hgo, hk], ?_⟩
      · simpa using hz
      · simpa [hc] using hcalls
    | false =>
      have hb := (hcs c (List.mem_cons_self ..)).resolve_left (by simp [hc])
      obtain ⟨k, y, rfl, hcalled, hready, hk⟩ := ready_of_isBuiltin he hj hc hb hstage
      obtain ⟨calls, z, hflows, hz, hgo, hcalls⟩ := ih hcs' hready hrest
      refine ⟨k :: calls, z, .call hc hcalled hflows, ?_, ?_, ?_⟩
      · simpa using hz
      · rw [hgo, hk, List.all_cons, Bool.and_assoc]
      · simpa [hc] using hcalls

theorem emit_apply {text : String} (hw : j.shell.wiring = .own) (h : Leaves text j.pending) :
    Job.emit j = .ok () { j with
      shell := { j.shell with output := j.shell.output.write text }, pending := .nothing } := by
  have ho : j.shell.wiring.stdout = .output := by rw [hw]; rfl
  rcases h with hp | ⟨hp, rfl⟩
  · simp only [Job.emit, Attempt.bind_apply, Attempt.get_apply, ho, hp, Job.inShell,
      Attempt.within, writeTo, flush, Attempt.modify_apply, Attempt.pure_apply, Job.setPending]
  · simp only [Job.emit, Attempt.bind_apply, Attempt.get_apply, hp, Attempt.pure_apply,
      Console.write_empty]
    rw [← hp]

theorem settles_of_shutAll {fs : List (Nat × BlockWriter)} (h : Job.shutAll fs j = .ok () j')
    (hj : j.Numbered) (hfs : ∀ f ∈ fs, f ∈ j.files) (hn : (fs.map (·.1)).Nodup) :
    Settles (fs.map (·.2)) j.shell.world.tree j'.shell.world.tree ∧
      j'.shell = (j.setTree j'.shell.world.tree).shell ∧ j'.keepGoing = j.keepGoing := by
  induction fs generalizing j with
  | nil =>
    cases h
    exact ⟨.nil _, rfl, rfl⟩
  | cons f fs ih =>
    obtain ⟨hf, hn⟩ := List.nodup_cons.mp hn
    obtain ⟨j₁, hshut, hrest⟩ := Attempt.ensure_eq_ok.mp h
    obtain ⟨j₂, hflush, hnote⟩ := Attempt.ensure_eq_ok.mp hshut
    cases hnote
    rw [Job.onFile_of_file? (hj.file?_eq_some_iff.mpr (hfs f (List.mem_cons_self ..)))] at hflush
    cases hw : BlockWriter.flush (f.2, j.shell.world.tree) with
    | error e p =>
      rw [hw] at hflush
      cases hflush
    | ok a p =>
      rw [hw] at hflush
      cases hflush
      have hset := hj.setFile f.1 p.1 p.2
      have hmem : ∀ g ∈ fs, g ∈ (j.setFile f.1 p.1 p.2).files := fun g hg =>
        Job.mem_files_setFile (hfs g (List.mem_cons_of_mem f hg))
          (fun he => hf (List.mem_map.mpr ⟨g, hg, he⟩)) _ _
      obtain ⟨hs, hshell, hgo⟩ := ih hrest ⟨hset.nodup, hset.below⟩ hmem hn
      exact ⟨.cons hw hs, hshell, hgo⟩

theorem ends_of_finish {room : Nat} {stages : List Command} (hj : Ready r stages [] y j)
    (h : (do Job.emit; Job.finish room : Job.Step τ Unit) j = .ok () j') :
    Ends stages y j'.shell ∧ j'.keepGoing = j.keepGoing := by
  obtain ⟨_, j₁, hemit, hfinish⟩ := Attempt.bind_eq_ok.mp h
  rw [emit_apply (hj.shell ▸ hj.wiring) (hj.leaves rfl)] at hemit
  cases hemit
  obtain ⟨-, hshut⟩ := Job.finish_eq_ok.mp hfinish
  obtain ⟨hs, hshell, hgo⟩ := settles_of_shutAll hshut
    ⟨hj.numbered.nodup, hj.numbered.below⟩ (fun f hf => hf) hj.numbered.nodup
  refine ⟨⟨?_, ?_⟩, hgo⟩
  · rw [← hj.files, ← hj.shell]
    exact hs
  · rw [hshell, ← hj.shell]
    rfl

/-- A pipeline whose stages are builtins or have no name, and that does not fail, runs as the fold
over its stages says. Each builtin is called once, in order. -/
theorem execute_dataflow (he : e.GoesByWiring) {p : Pipeline} {s s' : Shell τ} {b : Bool}
    (hs : s.wiring = .own)
    (hp : ∀ c ∈ p.stages, c.isEmpty = true ∨ s.registry.isBuiltin c.name = true)
    (h : p.execute e s = .ok b s') : ∃ calls, Runs e p s calls s' ∧
      b = calls.all Call.goesOn ∧ calls.map (·.command) = p.stages.filter (!·.isEmpty) := by
  unfold Pipeline.execute at h
  cases hidle : p.isIdle with
  | true =>
    rw [if_pos hidle] at h
    cases h
    refine ⟨[], by simp [Runs, hidle], rfl, ?_⟩
    obtain ⟨hsingle, hempty⟩ := Bool.and_eq_true_iff.mp hidle
    have hrest := List.isEmpty_iff.mp hsingle
    simp [Pipeline.stages, hrest, hempty]
  | false =>
    rw [if_neg (by simp [hidle])] at h
    cases hrun : Job.run e p (Job.start s) with
    | error f j =>
      rw [hrun] at h
      cases h
    | ok a j =>
      rw [hrun] at h
      cases h
      obtain ⟨j₁, hbody, hfinish⟩ := Attempt.ensure_eq_ok.mp hrun
      obtain ⟨_, j₂, hstages, hemit⟩ := Attempt.bind_eq_ok.mp hbody
      have hready : Ready s.registry [] p.stages ⟨s, "", []⟩ (Job.start s) :=
        ⟨(follows_start hs).toStands, fun _ => follows_start hs, fun hnil => by cases hnil⟩
      obtain ⟨calls, y, hflows, hy, hgo, hcalls⟩ := flows_of_runStages he hp hready hstages
      have hend := ends_of_finish hy (Attempt.bind_eq_ok.mpr ⟨_, j₁, hemit, hfinish⟩)
      refine ⟨calls, ?_, by rw [hend.2, hgo]; rfl, hcalls⟩
      simp only [Runs, hidle]
      exact ⟨y, hflows, hend.1⟩

def trialShell : Shell Builtin :=
  .start ⟨⟨[], 4096⟩, [], [], ⟨2024, 1, 1, 0, 0, 0, 0⟩, [], ⟨none, []⟩⟩
    ⟨[("cat", .cat), ("echo", .echo)]⟩ none (.empty 0) "typed" (.text "")

def trialEngine : Engine Builtin :=
  ⟨Builtin.run, fun _ => .error .noEntry, 0, .ample⟩

/-- The first builtin fails, and the text of the second passes a stage without a name, a builtin and
another stage without a name. -/
def trialPipeline : Pipeline where
  first := ⟨"cat", ["\x00"], .none⟩
  rest := [⟨"echo", ["hi"], .none⟩, ⟨"", [], .none⟩, ⟨"cat", [], .none⟩, ⟨"", [], .none⟩]

theorem execute_dataflow_trial : ∃ calls,
    Runs trialEngine trialPipeline trialShell calls { trialShell with
      output := .text "hi\n", errors := .text "cat: embedded null byte\n", captured := "hi\n" } ∧
    true = calls.all Call.goesOn ∧
    calls.map (·.command) = trialPipeline.stages.filter (!·.isEmpty) :=
  execute_dataflow (Builtin.onlyRoams _ _ _).goesByWiring rfl (by decide) (by decide +kernel)

end PipelineShell.Dataflow
