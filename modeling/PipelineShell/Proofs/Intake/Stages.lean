import PipelineShell.Proofs.Dataflow.Stages
import PipelineShell.Proofs.Intake.Builtins
import PipelineShell.Proofs.Replay.Lines
import PipelineShell.Proofs.Transparency.Decoding

/-! What a line takes from the shell's own input. Its first stage that is not empty may read all of
it, or be fed with all of it, unless a stage before it has put an empty text there; the stages after
that have a text of their own. -/

namespace PipelineShell

namespace Job

open Shell

section

variable {τ : Type} {e : Engine τ} {c : Command} {last : Bool} {j j' : Job τ}

theorem pending_of_takeIn {out : Option Nat} (h : takeIn e out j = .ok () j') :
    j'.pending = if out.isSome then .text "" else j.pending := by
  cases out with
  | none =>
    cases h
    rfl
  | some n =>
    obtain ⟨_, _, -, h⟩ := Attempt.bind_eq_ok.mp h
    obtain ⟨_, _, -, h⟩ := Attempt.bind_eq_ok.mp h
    cases h
    rfl

theorem pending_of_openDestination {d : Destination} {out : Option Nat}
    (h : openDestination d j = .ok out j') :
    j'.pending = j.pending ∧ out.isSome = d.target.isSome := by
  obtain ⟨w, s, hheld, rfl, rfl⟩ := openDestination_eq_ok.mp h
  refine ⟨hold_pending j w s, ?_⟩
  rw [Option.isSome_map, Dataflow.openHeld_isSome hheld]

theorem pending_of_runEmpty {r : Redirection} (h : runEmpty e r j = .ok () j') :
    j'.pending = if r.stdout.target.isSome then .text "" else j.pending := by
  rw [runEmpty_eq] at h
  obtain ⟨_, j₁, herr, h⟩ := Attempt.bind_eq_ok.mp h
  obtain ⟨out, j₂, hout, h⟩ := Attempt.bind_eq_ok.mp h
  rw [pending_of_takeIn h, (pending_of_openDestination hout).1, (pending_of_openDestination hout).2,
    (pending_of_openDestination herr).1]

theorem pending_ne_nothing_of_handOn (out : Option Nat) {pipe : Option Nat} {pieces : List ByteArray}
    (h : handOn false out pipe pieces j = .ok () j') : j'.pending ≠ .nothing := by
  cases pipe <;> (cases h; nofun)

theorem pending_ne_nothing_of_attend {out err : Option Nat} {amount : Nat} {output : Output}
    (h : attend false out err amount output j = .ok () j') : j'.pending ≠ .nothing := by
  obtain ⟨ends, j₁, -, h⟩ := Attempt.bind_eq_ok.mp h
  obtain ⟨_, j₂, -, h⟩ := Attempt.bind_eq_ok.mp h
  obtain ⟨_, j₃, -, h⟩ := Attempt.bind_eq_ok.mp h
  cases err with
  | none =>
    obtain ⟨_, j₄, -, h⟩ := Attempt.bind_eq_ok.mp h
    exact pending_ne_nothing_of_handOn out h
  | some n => exact pending_ne_nothing_of_handOn out h

theorem pending_ne_nothing_of_runProcess (h : runProcess e c false j = .ok () j') :
    j'.pending ≠ .nothing := by
  rw [runProcess_eq] at h
  obtain ⟨_, _, ⟨⟩, h⟩ := Attempt.bind_eq_ok.mp h
  cases hpath : j.shell.locate c.name with
  | none =>
    rw [hpath] at h
    cases h
  | some path =>
    rw [hpath] at h
    obtain ⟨out, j₁, -, h⟩ := Attempt.bind_eq_ok.mp h
    obtain ⟨err, j₂, -, h⟩ := Attempt.bind_eq_ok.mp h
    cases hwords : (c.name :: c.args).all FileTree.isPath with
    | false =>
      rw [launch, hwords] at h
      cases h
    | true =>
      rw [launch_apply hwords] at h
      cases hlaunch : launching e c false path out err j₂ with
      | error r =>
        rw [hlaunch] at h
        cases h
      | ok output =>
        rw [hlaunch] at h
        exact pending_ne_nothing_of_attend h

theorem pending_ne_nothing_of_runStage (hc : c.feeds = true)
    (h : runStage e c false j = .ok () j') : j'.pending ≠ .nothing := by
  cases hempty : c.isEmpty with
  | true =>
    rw [runStage_of_isEmpty hempty] at h
    have htarget : c.redirection.stdout.target.isSome = true := by
      simpa [Command.feeds, hempty, Command.redirects, Redirection.get] using hc
    simp [pending_of_runEmpty h, htarget]
  | false =>
    cases hb : j.shell.registry.isBuiltin c.name with
    | true =>
      obtain ⟨tag, htag⟩ := resolve_of_isBuiltin hb
      rw [runStage_of_resolve hempty hb htag, runBuiltin_apply] at h
      split at h
      · cases h
        simp
      · cases h
    | false =>
      rw [runStage_of_program hempty hb] at h
      exact pending_ne_nothing_of_runProcess h

theorem pending_of_not_feeds (hc : c.feeds = false) (h : runStage e c last j = .ok () j') :
    j'.pending = j.pending := by
  have hfeeds : c.isEmpty = true ∧ c.redirection.stdout.target.isSome = false := by
    simpa [Command.feeds, Command.redirects, Redirection.get] using hc
  rw [runStage_of_isEmpty hfeeds.1] at h
  rw [pending_of_runEmpty h, hfeeds.2]
  rfl

theorem shell_runBuiltin (tag : τ) : ((runBuiltin e tag c last).final j).shell =
    { (invoke e tag c).final (j.builtinShell last) with wiring := j.shell.wiring } := by
  rw [Attempt.final, runBuiltin_apply, Attempt.final]
  cases invoke e tag c (j.builtinShell last) <;> rfl

theorem stdin_builtinShell_of_pending (hp : j.pending ≠ .nothing) :
    (j.builtinShell last).wiring.stdin = .given := by
  unfold builtinShell drained
  cases hpending : j.pending with
  | nothing => exact absurd hpending hp
  | text s => rfl
  | stream pipe pieces => rfl

theorem stdin_builtinShell_of_nothing (hp : j.pending = .nothing) :
    (j.builtinShell last).wiring.stdin = j.shell.wiring.stdin := by
  simp [builtinShell, drained, hp, stageWiring]

theorem sameInput_attend (out err : Option Nat) (amount : Nat) (output : Output) :
    SameInput (j.served amount) ((attend last out err amount output).final j).shell := by
  obtain ⟨ends, j₁, hspawn, haside⟩ := noted_spawn last out err j
  obtain ⟨j₂, hfeed, hfed⟩ := exists_feed ends.input amount j₁
  have hserved : j₂.shell = j.served amount := by
    rw [hfed.shell, served, served, haside.shell, haside.pending]
  rw [attend, Attempt.final_bind_of_ok hspawn, Attempt.final_bind_of_ok hfeed, ← hserved]
  exact (worksOn_attended last out err ends output j₂).sameInput

theorem worksOn_opening (c : Command) :
    Attempt.Keeps (Along WorksOn) (opening c : Job.Step τ (Option Nat × Option Nat)) :=
  (worksOn_openDestination _).bind fun _ => (worksOn_openDestination _).bind fun _ =>
    Attempt.keeps_pure _

theorem pending_of_opening {targets : Option Nat × Option Nat} (h : opening c j = .ok targets j') :
    j'.pending = j.pending := by
  obtain ⟨out, j₁, hout, h⟩ := Attempt.bind_eq_ok.mp h
  obtain ⟨err, j₂, herr, h⟩ := Attempt.bind_eq_ok.mp h
  cases h
  rw [(pending_of_openDestination herr).1, (pending_of_openDestination hout).1]

/-- The process of the stage starts: the system has taken it. -/
def Starts (e : Engine τ) (c : Command) (last : Bool) (j : Job τ) (launch : Launch) : Prop :=
  deed e c last j = some (.started launch) ∧ ∃ output, e.programs launch = .ok output

theorem inputFor_congr (hp : j'.pending = j.pending) (h : SameInput j.shell j'.shell) :
    j'.inputFor e = j.inputFor e := by
  rw [inputFor, inputFor, hp, h.input, h.behind]

theorem sameInput_served (hp : j'.pending = j.pending) (h : SameInput j.shell j'.shell)
    (amount : Nat) : SameInput (j.served amount) (j'.served amount) := by
  unfold served
  rw [hp]
  split
  · exact h.drawn amount
  · exact h

theorem starts_or_not (hc : c.isEmpty = false) (hb : j.shell.registry.isBuiltin c.name = false) :
    (∃ launch, Starts e c last j launch ∧ launch.input = j.inputFor e ∧
      SameInput (j.served (e.host.draws launch)) ((runProcess e c last).final j).shell) ∨
    ((∀ launch, ¬Starts e c last j launch) ∧
      SameInput j.shell ((runProcess e c last).final j).shell) := by
  have hprocess : ∀ path, j.shell.locate c.name = some path → runProcess e c last j =
      (opening c >>= fun targets => launch e c last path targets.1 targets.2) j := by
    intro path hpath
    simp only [runProcess_eq, opening, Attempt.bind_of_ok (Attempt.get_apply j), hpath, bind_assoc,
      pure_bind]
  have hopening := worksOn_opening c j
  unfold Starts
  cases hpath : j.shell.locate c.name with
  | none =>
    refine .inr ⟨fun launch h => ?_, ?_⟩
    · simp [deed, hc, hb, hpath] at h
    · have hend : (runProcess e c last).final j = j := by
        simp [Attempt.final, runProcess_eq, Attempt.bind_apply, hpath]
      exact hend.symm ▸ refl_of SameInput j.shell
  | some path =>
    rw [Attempt.final, hprocess path hpath, ← Attempt.final]
    cases htargets : opening c j with
    | error f j₁ =>
      rw [Attempt.final_of_error htargets] at hopening
      refine .inr ⟨fun launch h => ?_, ?_⟩
      · simp [deed, hc, hb, hpath, htargets] at h
      · rw [Attempt.final_bind_of_error htargets]
        exact hopening.sameInput
    | ok targets j₁ =>
      obtain ⟨out, err⟩ := targets
      rw [Attempt.final_of_ok htargets] at hopening
      rw [Attempt.final_bind_of_ok htargets]
      dsimp only
      have hdeed : deed e c last j =
          if (c.name :: c.args).all FileTree.isPath && !j₁.isBusy path then
            some (.started (j₁.launchFor e c last path out err)) else none := by
        simp only [deed, hc, hb, hpath, htargets]
        rfl
      rw [hdeed]
      cases hwords : (c.name :: c.args).all FileTree.isPath with
      | false =>
        refine .inr ⟨by simp, ?_⟩
        rw [launch, hwords]
        exact hopening.sameInput
      | true =>
        rw [Attempt.final, launch_apply hwords, launching]
        cases hbusy : j₁.isBusy path with
        | true => exact .inr ⟨by simp, hopening.sameInput⟩
        | false =>
          have hpending := pending_of_opening htargets
          cases hran : e.programs (j₁.launchFor e c last path out err) with
          | error r => exact .inr ⟨by simp [hran], hopening.sameInput⟩
          | ok output =>
            refine .inl ⟨_, ⟨rfl, output, hran⟩, inputFor_congr hpending hopening.sameInput, ?_⟩
            exact trans_of SameInput (sameInput_served hpending hopening.sameInput _)
              (sameInput_attend out err _ output)

theorem sameInput_runStage_of_pending (he : e.OnlyRoams) (hp : j.pending ≠ .nothing) :
    SameInput j.shell ((runStage e c last).final j).shell := by
  cases hempty : c.isEmpty with
  | true =>
    rw [runStage_of_isEmpty hempty]
    exact (worksOn_runEmpty c.redirection j).sameInput
  | false =>
    cases hb : j.shell.registry.isBuiltin c.name with
    | true =>
      obtain ⟨tag, htag⟩ := resolve_of_isBuiltin hb
      rw [Attempt.final, runStage_of_resolve hempty hb htag, ← Attempt.final, shell_runBuiltin]
      have hgiven : (j.builtinShell last).wiring.stdin = .given := stdin_builtinShell_of_pending hp
      have hinvoke : SameInput (j.builtinShell last) ((invoke e tag c).final (j.builtinShell last)) :=
        sameInput_invoke_of_given he hgiven
      exact ⟨hinvoke.input, hinvoke.behind⟩
    | false =>
      rw [Attempt.final, runStage_of_program hempty hb, ← Attempt.final]
      rcases starts_or_not hempty hb with ⟨launch, -, -, hinput⟩ | ⟨-, hinput⟩
      · rwa [served, if_neg hp] at hinput
      · exact hinput

theorem sameInput_run (p : Pipeline) (j : Job τ) :
    SameInput ((runStages e p.stages).final j).shell ((run e p).final j).shell := by
  have hfinish := (worksOn_finish e.host.pipeRoom
    ((runStages e p.stages >>= fun _ => emit).final j)).sameInput
  rw [run, Attempt.final_ensure]
  refine trans_of SameInput ?_ hfinish
  cases h : runStages e p.stages j with
  | error f j' =>
    rw [Attempt.final_bind_of_error h, Attempt.final_of_error h]
    exact refl_of SameInput j'.shell
  | ok a j' =>
    rw [Attempt.final_bind_of_ok h, Attempt.final_of_ok h]
    exact (worksOn_emit j').sameInput

theorem pending_ne_nothing_of_pending (hp : j.pending ≠ .nothing)
    (h : runStage e c false j = .ok () j') : j'.pending ≠ .nothing := by
  cases hfeeds : c.feeds with
  | true => exact pending_ne_nothing_of_runStage hfeeds h
  | false => rwa [pending_of_not_feeds hfeeds h]

theorem sameInput_runStages_of_pending (he : e.OnlyRoams) {cs : List Command}
    (hp : cs ≠ [] → j.pending ≠ .nothing) :
    SameInput j.shell ((runStages e cs).final j).shell := by
  induction cs generalizing j with
  | nil => exact refl_of SameInput j.shell
  | cons c cs ih =>
    have hpending := hp (List.cons_ne_nil c cs)
    have hstage : SameInput j.shell ((runStage e c cs.isEmpty).final j).shell :=
      sameInput_runStage_of_pending he hpending
    rw [runStages]
    cases h : runStage e c cs.isEmpty j with
    | error f j' =>
      rw [Attempt.final_of_error h] at hstage
      rwa [Attempt.final_bind_of_error h]
    | ok a j' =>
      rw [Attempt.final_of_ok h] at hstage
      rw [Attempt.final_bind_of_ok h]
      refine trans_of SameInput hstage (ih fun hcs => ?_)
      rw [List.isEmpty_eq_false_iff.mpr hcs] at h
      exact pending_ne_nothing_of_pending hpending h

theorem sameInput_runStages_of_feeds (he : e.OnlyRoams) (hc : c.feeds = true) (cs : List Command) :
    SameInput ((runStage e c cs.isEmpty).final j).shell
      ((runStages e (c :: cs)).final j).shell := by
  rw [runStages]
  cases h : runStage e c cs.isEmpty j with
  | error f j' =>
    rw [Attempt.final_bind_of_error h, Attempt.final_of_error h]
    exact refl_of SameInput j'.shell
  | ok a j' =>
    rw [Attempt.final_bind_of_ok h, Attempt.final_of_ok h]
    refine sameInput_runStages_of_pending he fun hcs => ?_
    rw [List.isEmpty_eq_false_iff.mpr hcs] at h
    exact pending_ne_nothing_of_runStage hc h

end

section

variable {e : Engine Builtin} {c : Command} {cs : List Command} {last : Bool}
  {j j' : Job Builtin} {text : String}

/-- The stage takes a text in: it calls `cat` without a file, which reads the text, or starts a
process that is fed with it, or that takes it from the file that the shell's input comes from. -/
inductive TakesIn (e : Engine Builtin) (c : Command) (last : Bool) (j : Job Builtin)
    (text : String) : Prop
  | builtin {entry : Shell Builtin} (h : Enters c last j .cat entry) (hargs : c.args = [])
      (hread : entry.toRead = text)
  | fed {launch : Launch} (hc : c.isEmpty = false) (h : Starts e c last j launch)
      (hmemory : j.shell.behind = none) (hfed : launch.input = Text.encode text)
  | shares {launch : Launch} {rest : String} (hc : c.isEmpty = false)
      (h : Starts e c last j launch) (hfile : j.shell.behind = some rest)
      (hshared : launch.input = Text.encode rest)
      (htook : text = Text.first (e.host.draws launch) rest)

/-- The stages draw a text from the shell's own input: the first of them that is not empty takes it
in, and no target of a stage before it stands in the way. -/
inductive Draws (e : Engine Builtin) : List Command → Job Builtin → String → Prop
  | here {c : Command} {cs : List Command} {j : Job Builtin} {text : String}
      (h : TakesIn e c cs.isEmpty j text) : Draws e (c :: cs) j text
  | later {c : Command} {cs : List Command} {j j' : Job Builtin} {text : String}
      (hc : c.feeds = false) (hstage : runStage e c cs.isEmpty j = .ok () j')
      (h : Draws e cs j' text) : Draws e (c :: cs) j text

theorem TakesIn.isEmpty (h : TakesIn e c last j text) : c.isEmpty = false := by
  cases h with
  | builtin h => exact h.named
  | fed hc => exact hc
  | shares hc => exact hc

theorem toRead_of_enters {tag : Builtin} {entry : Shell Builtin} (h : Enters c last j tag entry)
    (hp : j.pending = .nothing) (hw : j.shell.wiring.stdin = .own) :
    entry.wiring.stdin = .own ∧ SameInput j.shell entry := by
  obtain ⟨t, hopen, rfl⟩ := h.opened
  have hfiles := (keeps_openTargets _).ok hopen
  refine ⟨?_, hfiles.input, hfiles.behind⟩
  have hstdin : t.wiring.stdin = .own := by
    rw [hfiles.wiring, stdin_builtinShell_of_nothing hp, hw]
  exact hstdin

theorem sameInput_of_enters {tag : Builtin} {entry : Shell Builtin}
    (h : Enters c last j tag entry) : SameInput ((e.handler tag c.args).final entry)
      ((runStage e c last).final j).shell := by
  obtain ⟨t, hopen, rfl⟩ := h.opened
  have hstage : (runStage e c last).final j = (runBuiltin e tag c last).final j := by
    rw [Attempt.final, runStage_of_resolve h.named h.builtin h.resolves, ← Attempt.final]
  have hinvoke : SameInput _ ((invoke e tag c).final (j.builtinShell last)) :=
    (worksOn_invoke hopen).sameInput
  rw [hstage, shell_runBuiltin]
  exact ⟨hinvoke.input, hinvoke.behind⟩

theorem inputFor_of_nothing (hp : j.pending = .nothing) :
    j.inputFor e = Text.encode (j.shell.behind.getD j.shell.input) := by
  rw [inputFor, hp]

theorem isBuiltin_of_starts {launch : Launch} (hc : c.isEmpty = false)
    (h : Starts e c last j launch) : j.shell.registry.isBuiltin c.name = false := by
  cases hb : j.shell.registry.isBuiltin c.name with
  | false => rfl
  | true =>
    have hdeed := h.1
    simp only [deed, hc, hb, Bool.false_eq_true, if_false, if_true] at hdeed
    split at hdeed <;> cases hdeed

variable (he : e.handler = Builtin.run) (hp : j.pending = .nothing)
  (hw : j.shell.wiring.stdin = .own)

include he hp hw

omit he hw in
theorem drawn_of_starts {launch : Launch} (hc : c.isEmpty = false)
    (h : Starts e c last j launch) :
    launch.input = Text.encode (j.shell.behind.getD j.shell.input) ∧
      SameInput (Job.drawn j.shell (e.host.draws launch)) ((runStage e c last).final j).shell := by
  have hb := isBuiltin_of_starts hc h
  rw [Attempt.final, runStage_of_program hc hb, ← Attempt.final]
  rcases starts_or_not hc hb with ⟨launch, hstarts, hfeed, hinput⟩ | ⟨hnot, -⟩
  · cases h.1.symm.trans hstarts.1
    rw [inputFor_of_nothing hp] at hfeed
    rw [served, if_pos hp] at hinput
    exact ⟨hfeed, hinput⟩
  · exact absurd h (hnot _)

theorem readsUp_of_enters {entry : Shell Builtin} (h : Enters c last j .cat entry)
    (hargs : c.args = []) : ReadsUp j.shell ((runStage e c last).final j).shell := by
  obtain ⟨hstdin, hsame⟩ := toRead_of_enters h hp hw
  have hafter := sameInput_of_enters (e := e) h
  rw [he, hargs] at hafter
  exact (Builtin.readsUp_runCat hstdin).congr hsame hafter

theorem TakesIn.drawn (h : TakesIn e c last j text) :
    Drawn j.shell text ((runStage e c last).final j).shell := by
  cases h with
  | builtin h hargs hread =>
    obtain ⟨hstdin, hsame⟩ := toRead_of_enters h hp hw
    rw [toRead, hstdin] at hread
    exact .whole (hread.symm.trans hsame.remaining) (readsUp_of_enters he hp hw h hargs)
  | fed hc h hmemory hfed =>
    obtain ⟨hinput, hsame⟩ := drawn_of_starts hp hc h
    rw [hfed, hmemory, Option.getD_none] at hinput
    have htext : text = j.shell.input := by
      rw [← Text.decode_encode text, hinput, Text.decode_encode]
    rw [Job.drawn, hmemory] at hsame
    refine .whole ?_ ⟨hsame.input, ?_⟩
    · rw [remaining, hmemory, htext]
      exact String.append_empty.symm
    · rw [hsame.behind, hmemory]
      rfl
  | shares hc h hfile hshared htook =>
    obtain ⟨-, hsame⟩ := drawn_of_starts hp hc h
    rw [Job.drawn, hfile] at hsame
    refine .part hsame.input ?_ hsame.behind
    rw [hfile, htook, Text.first_append_past]

theorem sameInput_of_not_takesIn (hc : c.isEmpty = false) (h : ∀ text, ¬TakesIn e c last j text) :
    SameInput j.shell ((runStage e c last).final j).shell := by
  cases hb : j.shell.registry.isBuiltin c.name with
  | true =>
    obtain ⟨tag, htag⟩ := resolve_of_isBuiltin hb
    by_cases hopen : ∃ t, openTargets c.redirection (j.builtinShell last) = .ok () t
    · obtain ⟨t, ht⟩ := hopen
      have hentry : Enters c last j tag { t with wiring := rewire c.redirection t.wiring } :=
        ⟨hc, hb, htag, t, ht, rfl⟩
      have hother : ¬(tag = .cat ∧ c.args = []) := by
        rintro ⟨rfl, hargs⟩
        exact h _ (.builtin hentry hargs rfl)
      have hafter := sameInput_of_enters (e := e) hentry
      rw [he] at hafter
      exact trans_of SameInput (trans_of SameInput (toRead_of_enters hentry hp hw).2
        (Builtin.sameInput_run hother _)) hafter
    · rw [Attempt.final, runStage_of_resolve hc hb htag, ← Attempt.final, shell_runBuiltin]
      have hinvoke : SameInput _ ((invoke e tag c).final (j.builtinShell last)) :=
        (worksOn_invoke_of_unopened fun t ht => hopen ⟨t, ht⟩).sameInput
      exact ⟨hinvoke.input, hinvoke.behind⟩
  | false =>
    rw [Attempt.final, runStage_of_program hc hb, ← Attempt.final]
    rcases starts_or_not hc hb with ⟨launch, hstarts, hfeed, -⟩ | ⟨-, hinput⟩
    · rw [inputFor_of_nothing hp] at hfeed
      cases hbehind : j.shell.behind with
      | none =>
        rw [hbehind] at hfeed
        exact absurd (.fed hc hstarts hbehind hfeed) (h j.shell.input)
      | some rest =>
        rw [hbehind] at hfeed
        exact absurd (.shares hc hstarts hbehind hfeed rfl) (h _)
    · exact hinput

end

section

variable {e : Engine Builtin} {j : Job Builtin} {text : String}

variable (he : e.handler = Builtin.run) {cs : List Command} (hp : j.pending = .nothing)
  (hw : j.shell.wiring = .own)

include he hp hw

/-- What the stages draw is drawn from the input that is left. -/
theorem Draws.drawn (h : Draws e cs j text) :
    Drawn j.shell text ((runStages e cs).final j).shell := by
  -- Up to the stage that takes the text in, nothing is pending and the input is whole; after it the
  -- stages read what is pending.
  induction h with
  | @here c cs j text h =>
    have hfeeds : c.feeds = true := by simp [Command.feeds, h.isEmpty]
    have hrest := sameInput_runStages_of_feeds (j := j) (Engine.onlyRoams_of_run he) hfeeds cs
    exact (h.drawn he hp (by rw [hw]; rfl)).congr (refl_of SameInput j.shell) hrest
  | @later c cs j j' text hc hstage h ih =>
    have hsame : SameInput j.shell j'.shell := by
      have hempty : c.isEmpty = true := by
        simpa using (Bool.or_eq_false_iff.mp hc).1
      rw [runStage_of_isEmpty hempty] at hstage
      exact ((worksOn_runEmpty _).ok hstage).sameInput
    have hwiring := ((steady_runStage c _).ok hstage).wiring
    have hrest := ih ((pending_of_not_feeds hc hstage).trans hp) (hwiring.trans hw)
    rw [runStages, Attempt.final_bind_of_ok hstage]
    exact hrest.congr hsame (refl_of SameInput _)

theorem sameInput_of_not_draws (h : ∀ text, ¬Draws e cs j text) :
    SameInput j.shell ((runStages e cs).final j).shell := by
  induction cs generalizing j with
  | nil => exact refl_of SameInput j.shell
  | cons c cs ih =>
    have hroams := Engine.onlyRoams_of_run he
    cases hempty : c.isEmpty with
    | false =>
      have hfeeds : c.feeds = true := by simp [Command.feeds, hempty]
      refine trans_of SameInput ?_ (sameInput_runStages_of_feeds hroams hfeeds cs)
      refine sameInput_of_not_takesIn he hp (by rw [hw]; rfl) hempty fun text htakes => ?_
      exact h text (.here htakes)
    | true =>
      have hstage : SameInput j.shell ((runStage e c cs.isEmpty).final j).shell := by
        rw [runStage_of_isEmpty hempty]
        exact (worksOn_runEmpty c.redirection j).sameInput
      cases hfeeds : c.feeds with
      | true => exact trans_of SameInput hstage (sameInput_runStages_of_feeds hroams hfeeds cs)
      | false =>
        rw [runStages]
        cases hrun : runStage e c cs.isEmpty j with
        | error f j' => rwa [Attempt.final_bind_of_error hrun, ← Attempt.final_of_error hrun]
        | ok a j' =>
          rw [Attempt.final_of_ok hrun] at hstage
          have hwiring := ((steady_runStage c _).ok hrun).wiring
          rw [Attempt.final_bind_of_ok hrun]
          exact trans_of SameInput hstage (ih ((pending_of_not_feeds hfeeds hrun).trans hp)
            (hwiring.trans hw) fun text hdraws => h text (.later hfeeds hrun hdraws))

end

end Job

namespace Shell

variable {e : Engine Builtin} {s : Shell Builtin} {line text : String}

/-- A line that is not blank draws a text from the shell's own input. -/
def LineDraws (e : Engine Builtin) (line : String) (s : Shell Builtin) (text : String) : Prop :=
  (Pipeline.parse line).isIdle = false ∧
    Job.Draws e (Pipeline.parse line).stages (Job.start (s.noted line)) text

theorem sameInput_runLine (h : (Pipeline.parse line).isIdle = false) : SameInput
    ((Job.runStages e (Pipeline.parse line).stages).final (Job.start (s.noted line))).shell
      ((runLine e line).final s) := by
  have hreport : ∀ f (y : Shell.Step Builtin Bool), report f = some y →
      Attempt.Keeps SameInput y := by
    intro f y hy
    obtain ⟨g, rfl, rfl⟩ := report_eq_some.mp hy
    exact (sameInput_line _ _).bind fun _ => Attempt.keeps_pure _
  have hhandle := Attempt.final_handle hreport ((Pipeline.parse line).execute e) (s.noted line)
  have hexecute : ((Pipeline.parse line).execute e).final (s.noted line) =
      ((Job.run e (Pipeline.parse line)).final (Job.start (s.noted line))).shell := by
    unfold Attempt.final Pipeline.execute
    rw [h]
    cases Job.run e (Pipeline.parse line) (Job.start (s.noted line)) <;> rfl
  have hline : (runLine e line).final s =
      (((Pipeline.parse line).execute e).handle report).final (s.noted line) := by
    rw [Attempt.final, runLine_apply h, ← Attempt.final]
  rw [hexecute, ← hline] at hhandle
  exact trans_of SameInput (Job.sameInput_run _ _) hhandle

variable (he : e.handler = Builtin.run) (hw : s.wiring = .own)

include he hw

theorem LineDraws.drawn (h : LineDraws e line s text) :
    Drawn s text ((runLine e line).final s) := by
  have hnoted : SameInput s (Job.start (s.noted line)).shell := ⟨rfl, rfl⟩
  exact (h.2.drawn he rfl hw).congr hnoted (sameInput_runLine h.1)

theorem sameInput_of_not_lineDraws (h : ∀ text, ¬LineDraws e line s text) :
    SameInput s ((runLine e line).final s) := by
  cases hp : (Pipeline.parse line).isIdle with
  | true =>
    rw [Attempt.final_of_ok (runLine_of_isIdle hp)]
    exact refl_of SameInput s
  | false =>
    have hnoted : SameInput s (Job.start (s.noted line)).shell := ⟨rfl, rfl⟩
    have hstages := Job.sameInput_of_not_draws he (j := Job.start (s.noted line)) rfl hw
      fun text hdraws => h text ⟨hp, hdraws⟩
    exact trans_of SameInput (trans_of SameInput hnoted hstages) (sameInput_runLine hp)

end Shell

end PipelineShell
