import PipelineShell.Proofs.Lag.Between
import PipelineShell.Proofs.Lag.Cat
import PipelineShell.Proofs.Transparency.Execute

/-! A stage without a name does in a pipeline of builtins what `cat` with the same targets does in
its place, as long as no stage after it opens or copies a file that is still to get its text. -/

namespace PipelineShell

open Attempt FileTree

/-- The same shell, but for what a stage has for itself and the order in which the tree is kept. -/
structure Shell.LooksLike {τ : Type} (s t : Shell τ) : Prop where
  same : t = { s with
    world := { s.world with tree := t.world.tree }
    given := t.given
    captured := t.captured }
  entries : s.world.tree.SameEntries t.world.tree

theorem Shell.Behind.looksLike {τ : Type} {s t : Shell τ} (h : Behind none s t) : LooksLike s t :=
  ⟨h.same, FileTree.lags_none_iff.mp h.lags⟩

/-- A stage finds the same in both jobs, but where something is still to come in the first. -/
structure Job.FindsAlike (g : Option Lag) (x y : Job CommandTag) : Prop where
  pending : y.pending = x.pending
  keepGoing : y.keepGoing = x.keepGoing
  shell : y.shell = { x.shell with
    world := { x.shell.world with tree := y.shell.world.tree }
    given := y.shell.given
    captured := y.shell.captured }
  entries : ∀ place, Settled g place →
    y.shell.world.tree.get? place = x.shell.world.tree.get? place

theorem Job.Abreast.findsAlike {g : Option Lag} {earlier : List BlockWriter}
    {x y : Job CommandTag} (h : Abreast g earlier x y) : FindsAlike g x y :=
  ⟨h.pending, h.keepGoing, h.shell.same, fun _ hplace => h.shell.lags.get?_of_settled hplace⟩

variable {e : Engine CommandTag} {p q : Pipeline} {before after mid post : List Command}
  {c d : Command} {s : Shell CommandTag} {j : Job CommandTag}

/-- A shell between two lines, with the builtin `cat` under its name. -/
structure Shell.Resting (s : Shell CommandTag) : Prop where
  wiring : s.wiring = .own
  outFile : s.outFile = none
  errFile : s.errFile = none
  cat : s.registry.get? "cat" = some (.inl .cat)

/-- Of two pipelines of builtins and stages without a name, the second has `cat` in the place of a
stage `c` of the first that has a target for its output and a builtin before it. -/
structure Replaces (s : Shell CommandTag) (p q : Pipeline) (before : List Command) (c : Command)
    (after : List Command) : Prop where
  stages : p.stages = before ++ c :: after
  stages' : q.stages = before ++ c.asCat :: after
  builtin : ∀ d ∈ p.stages, d.isEmpty = false → s.registry.isBuiltin d.name = true
  named : ∃ d ∈ before, d.isEmpty = false
  isEmpty : c.isEmpty = true
  target : c.redirection.stdout.target.isSome = true

/-- How two pipelines run, the second of which has `cat` in the place of the stage `c` of the
first. -/
structure Interchangeable (e : Engine CommandTag) (p q : Pipeline) (before : List Command)
    (c : Command) (after : List Command) (s : Shell CommandTag) : Prop where
  /-- They end in the same way, and in shells that look alike. -/
  ends : Agree Shell.LooksLike Shell.LooksLike (p.execute e s) (q.execute e s)
  /-- Every later stage is come to in both or in neither, and finds the same. -/
  finds : ∀ mid d post, after = mid ++ d :: post → Agree
    (fun i i' => ∀ x, Job.passing e (before ++ [c]) (.start s) = .ok () x →
      Job.FindsAlike x.lag i i')
    (fun _ _ => True) (Job.passing e (before ++ c :: mid) (.start s))
    (Job.passing e (before ++ c.asCat :: mid) (.start s))

namespace Job

theorem passing_append_singleton (before : List Command) (c : Command) :
    passing e (before ++ [c]) = passing e before >>= fun _ => runStage e c false := by
  have hone : passing e [c] = runStage e c false := by
    funext j
    rw [passing, bind_apply]
    cases runStage e c false j <;> rfl
  rw [passing_append, hone]

theorem passing_append_cons (before mid : List Command) (c : Command) :
    passing e (before ++ c :: mid) =
      passing e before >>= fun _ => runStage e c false >>= fun _ => passing e mid := by
  rw [passing_append, passing]

/-- What is left of a pipeline when some of its stages have run. -/
def resuming (e : Engine CommandTag) (c : Command) (after : List Command) :
    Job.Step CommandTag Unit :=
  runStage e c after.isEmpty >>= fun _ => runStages e after >>= fun _ => emit

theorem run_of_passing (hp : p.stages = before ++ c :: after)
    (hbefore : passing e before (.start s) = .ok () j) :
    run e p (.start s) = (resuming e c after).ensure (finish e.host.pipeRoom) j := by
  refine ensure_congr ?_ _
  rw [hp, runStages_append_cons, bind_assoc, bind_of_ok hbefore, bind_assoc]
  rfl

section

variable {text : String} (he : e.handler = Session.runCommand) (hj : j.Between)
  (hcat : j.shell.registry.get? "cat" = some (.inl .cat)) (hp : j.pending = .text text)
  (hb : ∀ d ∈ after, d.isEmpty = false → j.shell.registry.isBuiltin d.name = true)
  (hc : c.isEmpty = true) (htarget : c.redirection.stdout.target.isSome = true)
  (hpass : Passable c j)
  (hun : ∀ mid d post x i, after = mid ++ d :: post → runStage e c false j = .ok () x →
    passing e mid x = .ok () i → Untouched x.lag d post.isEmpty i)

include he hj hcat hp hb hc htarget hpass hun

theorem agree_resuming :
    Agree (fun x y => ∃ g, Lagging g (j.files.map (·.2)) x y)
      (fun x y => ∃ g, Lagging g (j.files.map (·.2)) x y)
      (resuming e c after j) (resuming e c.asCat after j) := by
  have hstage := lagging_asCat hcat hp after.isEmpty he hj hc htarget hpass
  refine (hstage.mono (fun _ _ h => h) fun _ _ h => ⟨none, h⟩).bind_of_ok
    fun _ x y hx ⟨hlagging, hpending⟩ => ?_
  have hwiring : x.shell.wiring = .own :=
    ((steady_runStage c after.isEmpty).ok hx).wiring.trans hj.wiring
  cases after with
  | nil => exact (lagging_emit hlagging hwiring).mono (fun _ _ h => ⟨_, h⟩) fun _ _ h => ⟨_, h⟩
  | cons d after =>
    have hregistry := registry_of_runStage he hx
    have hlater : ∀ mid b post i, d :: after = mid ++ b :: post → passing e mid x = .ok () i →
        Untouched x.lag b post.isEmpty i :=
      fun mid b post i hsplit hi => hun mid b post x i hsplit hx hi
    have hstages := abreast_runStages he ⟨hlagging, hpending rfl⟩
      (fun b hb' => hregistry ▸ hb b hb') hlater
    refine (hstages.mono (fun _ _ h => h) fun _ _ h => ⟨_, h.toLagging⟩).bind_of_ok
      fun _ x' y' hx' h => ?_
    have hwiring' := ((steady_runStages (d :: after)).ok hx').wiring.trans hwiring
    exact (lagging_emit h.toLagging hwiring').mono (fun _ _ h => ⟨_, h⟩) fun _ _ h => ⟨_, h⟩

theorem agree_passing (hsplit : after = mid ++ d :: post) :
    Agree (fun i i' => ∀ x, runStage e c false j = .ok () x → FindsAlike x.lag i i')
      (fun _ _ => True) ((runStage e c false >>= fun _ => passing e mid) j)
      ((runStage e c.asCat false >>= fun _ => passing e mid) j) := by
  have hstage := lagging_asCat hcat hp false he hj hc htarget hpass
  refine (hstage.mono (fun _ _ h => h) fun _ _ _ => trivial).bind_of_ok
    fun _ x y hx ⟨hlagging, hpending⟩ => ?_
  have hregistry := registry_of_runStage he hx
  have hrest : d :: post ≠ [] := List.cons_ne_nil d post
  have hlater : ∀ pre b rest i, mid ++ d :: post = pre ++ b :: rest →
      passing e pre x = .ok () i → Untouched x.lag b rest.isEmpty i :=
    fun pre b rest i hsplit' hi => hun pre b rest x i (hsplit.trans hsplit') hx hi
  have hstages := abreast_passing he hrest ⟨hlagging, hpending rfl⟩
    (fun b hb' => hregistry ▸ hb b (by simp [hsplit, hb'])) hlater
  refine hstages.mono (fun i i' h x' hx' => ?_) fun _ _ _ => trivial
  rw [hx] at hx'
  cases hx'
  exact h.findsAlike

end

end Job

open Job

theorem Interchangeable.of_error {f : Failure} (hp : p.stages = before ++ c :: after)
    (hq : q.stages = before ++ c.asCat :: after) (hidle : p.isIdle = false)
    (hidle' : q.isIdle = false) (h : passing e before (.start s) = .error f j) :
    Interchangeable e p q before c after s := by
  have hsame : q.execute e s = p.execute e s := by
    refine Pipeline.execute_congr hidle hidle' ?_
    rw [hp, hq, runStages_append_cons, runStages_append_cons, bind_of_error h, bind_of_error h]
  refine ⟨?_, fun mid d post _ => ?_⟩
  · rw [hsame]
    cases p.execute e s with
    | ok b t => exact .ok ⟨rfl, rfl, fun _ => rfl⟩
    | error f t => exact .error ⟨rfl, rfl, fun _ => rfl⟩
  · have hnever : ∀ d, passing e (before ++ d :: mid) (.start s) = .error f j := fun d => by
      rw [passing_append_cons, bind_of_error h]
    rw [hnever, hnever]
    exact .error trivial

/-- A stage without a name that has a target for its output does what `cat` would in its place. This
is so unless the order matters in which its targets are opened, its target has no room, or a later
stage opens or copies a file that it still holds text for. -/
theorem Pipeline.interchangeable_asCat (he : e.handler = Session.runCommand) (hs : s.Resting)
    (h : Replaces s p q before c after)
    (hpass : ∀ j, passing e before (.start s) = .ok () j → Passable c j)
    (hun : ∀ mid d post x i, after = mid ++ d :: post →
      passing e (before ++ [c]) (.start s) = .ok () x → passing e mid x = .ok () i →
        Untouched x.lag d post.isEmpty i) :
    Interchangeable e p q before c after s := by
  have hp := h.stages
  have hq := h.stages'
  have hbefore : ∀ d ∈ before, d.isEmpty = false → s.registry.isBuiltin d.name = true :=
    fun d hd => h.builtin d (by simp [hp, hd])
  have hafter : ∀ d ∈ after, d.isEmpty = false → s.registry.isBuiltin d.name = true :=
    fun d hd => h.builtin d (by simp [hp, hd])
  have hcat := hs.cat
  obtain ⟨d, hd, hd'⟩ := h.named
  have hidle : p.isIdle = false := isIdle_of_mem (by simp [hp, hd]) hd'
  have hidle' : q.isIdle = false := isIdle_of_mem (by simp [hq, hd]) hd'
  cases hj : passing e before (.start s) with
  | error f j => exact .of_error hp hq hidle hidle' hj
  | ok a j =>
    have hstart : Between (.start s) := by
      refine ⟨.start s, rfl, hs.wiring, ?_, nofun⟩
      rintro (_ | _)
      · exact hs.outFile
      · exact hs.errFile
    obtain ⟨hbetween, hsame, htext⟩ := between_of_passing he hbefore hstart hj
    have hregistry : j.shell.registry = s.registry := hsame
    obtain ⟨text, hpending⟩ := htext (.inr ⟨d, hd, hd'⟩)
    have hone : passing e (before ++ [c]) (.start s) = runStage e c false j := by
      rw [passing_append_singleton, bind_of_ok hj]
    rw [← hregistry] at hcat hafter
    rw [hone] at hun
    refine ⟨?_, fun mid d post hsplit => ?_⟩
    · have hbody := agree_resuming he hbetween hcat hpending hafter h.isEmpty h.target
        (hpass j hj) hun
      have hfinish : ∀ x y, (∃ g, Lagging g (j.files.map (·.2)) x y) →
          Agree Level Level (finish e.host.pipeRoom x) (finish e.host.pipeRoom y) :=
        fun _ _ ⟨_, h⟩ => level_finish h
      have hrun := hbody.ensure hfinish
      rw [execute_of_not_idle hidle, execute_of_not_idle hidle', run_of_passing hp hj,
        run_of_passing hq hj]
      generalize (resuming e c after).ensure (finish e.host.pipeRoom) j = v at hrun ⊢
      generalize (resuming e c.asCat after).ensure (finish e.host.pipeRoom) j = w at hrun ⊢
      cases hrun with
      | ok h =>
        dsimp only
        rw [h.keepGoing]
        exact .ok h.shell.looksLike
      | error h => exact .error h.shell.looksLike
    · rw [hone, passing_append_cons, passing_append_cons, bind_of_ok hj, bind_of_ok hj]
      exact agree_passing he hbetween hcat hpending hafter h.isEmpty h.target (hpass j hj) hun hsplit

namespace Lag

def trialEngine : Engine CommandTag :=
  ⟨Session.runCommand, fun _ => .error .noEntry, 1, .ample⟩

def trialShell : Shell CommandTag :=
  .start ⟨⟨[], 4096⟩, [], [], ⟨2024, 1, 1, 0, 0, 0, 0⟩, [], ⟨none, []⟩⟩
    ⟨[("cat", .inl .cat), ("echo", .inl .echo)]⟩ none (.empty 0) "" (.text "")

def trialEcho : Command :=
  ⟨"echo", ["hi"], .none⟩

def trialCat : Command :=
  ⟨"cat", [], .none⟩

def trialPass : Command :=
  ⟨"", [], ⟨⟨some "f", false⟩, ⟨none, false⟩⟩⟩

theorem replaces_trial : Replaces trialShell ⟨trialEcho, [trialPass, trialCat]⟩
    ⟨trialEcho, [trialPass.asCat, trialCat]⟩ [trialEcho] trialPass [trialCat] := by
  refine ⟨rfl, rfl, fun b hb hname => ?_, ⟨trialEcho, by simp, rfl⟩, rfl, rfl⟩
  have hmem : b = trialEcho ∨ b = trialPass ∨ b = trialCat := by simpa [Pipeline.stages] using hb
  rcases hmem with rfl | rfl | rfl
  · decide
  · cases hname
  · decide

theorem resting_trial : trialShell.Resting :=
  ⟨rfl, rfl, rfl, by decide⟩

/-- Text that is still held does not matter to a stage that opens and copies nothing. -/
theorem interchangeable_asCat_trial : Interchangeable trialEngine
    ⟨trialEcho, [trialPass, trialCat]⟩ ⟨trialEcho, [trialPass.asCat, trialCat]⟩
    [trialEcho] trialPass [trialCat] trialShell := by
  refine Pipeline.interchangeable_asCat rfl resting_trial replaces_trial
    (fun j hj => ⟨Redirection.orderFree_of_target_eq_none rfl, fun out err u hopen => .inr ?_⟩)
    fun mid d post x i hsplit hx hi => ?_
  · have hworld : (Job.passing trialEngine [trialEcho] |>.final (.start trialShell)).shell.world =
        trialShell.world := by decide
    rw [final_of_ok hj] at hworld
    have hopened : trialPass.redirection.openOutFirst trialShell.world.dir trialShell.world.tree =
        .ok (some (.start ["f"] false), none) ⟨[(["f"], .file .empty false)], 4096⟩ := by decide +kernel
    rw [hworld, hopened] at hopen
    cases hopen
    unfold BlockWriter.OnFull
    decide
  · obtain ⟨rfl, rfl, rfl⟩ : mid = [] ∧ d = trialCat ∧ post = [] := by
      cases mid with
      | nil => simpa [eq_comm] using hsplit
      | cons b mid => simp at hsplit
    refine ⟨fun place t h => ?_, fun opened t place u _ h => ?_, fun tag entry _ _ path hpath => ?_⟩
    · cases h
    · cases h
    · cases hpath

end Lag

end PipelineShell
