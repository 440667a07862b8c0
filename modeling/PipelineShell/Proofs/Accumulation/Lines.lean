import PipelineShell.Proofs.Accumulation.Stages
import PipelineShell.Proofs.Routes.Processes

/-! Truncating and appending, over any number of lines. Each stage that sends its output to a file
finds there what the stages before it have left, on whatever lines and in whatever places of a
pipeline they stand. -/

namespace PipelineShell

open Attempt FileTree

namespace Pipeline

/-- Runs lines one after the other, until one raises a failure. -/
def executeAll {τ : Type} (e : Engine τ) : List Pipeline → Shell.Step τ Unit
  | [] => pure ()
  | p :: ps => do
    discard (p.execute e)
    executeAll e ps

/-- The stages of a line, as far as they come to run. -/
def trail {τ : Type} (e : Engine τ) (p : Pipeline) (s : Shell τ) : List (Stage τ) :=
  if p.isIdle then [] else Job.trail e p.stages (Job.start s)

/-- The stages of some lines, in the order in which they come to run. -/
def trails {τ : Type} (e : Engine τ) : List Pipeline → Shell τ → List (Stage τ)
  | [], _ => []
  | p :: ps, s => p.trail e s ++
    match p.execute e s with
    | .ok _ t => trails e ps t
    | .error _ _ => []

theorem executeAll_cons_eq_ok {τ : Type} {e : Engine τ} {p : Pipeline} {ps : List Pipeline}
    {s t : Shell τ} : executeAll e (p :: ps) s = .ok () t ↔
      ∃ b s', p.execute e s = .ok b s' ∧ executeAll e ps s' = .ok () t := by
  rw [executeAll, bind_eq_ok]
  constructor
  · rintro ⟨_, s', hline, hrest⟩
    rw [discard_apply] at hline
    cases hexecute : p.execute e s with
    | ok b u =>
      rw [hexecute] at hline
      cases hline
      exact ⟨b, _, rfl, hrest⟩
    | error f u =>
      rw [hexecute] at hline
      cases hline
  · rintro ⟨b, s', hline, hrest⟩
    refine ⟨(), s', ?_, hrest⟩
    rw [discard_apply, hline]

theorem exists_mem_stages {τ : Type} {e : Engine τ} {ps : List Pipeline} {s : Shell τ} {k : Stage τ}
    (h : k ∈ trails e ps s) : ∃ p ∈ ps, k.command ∈ p.stages := by
  induction ps generalizing s with
  | nil => cases h
  | cons p ps ih =>
    rcases List.mem_append.mp h with h | h
    · unfold trail at h
      split at h
      · cases h
      · exact ⟨p, List.mem_cons_self, Job.command_mem_of_mem_trail h⟩
    · split at h
      · obtain ⟨q, hq, hk⟩ := ih h
        exact ⟨q, List.mem_cons_of_mem p hq, hk⟩
      · cases h

def OfBuiltins {τ : Type} (p : Pipeline) (s : Shell τ) : Prop :=
  ∀ c ∈ p.stages, c.isEmpty = false ∧ s.registry.isBuiltin c.name = true

section

variable {e : Engine Builtin} {place : Location} {p : Pipeline} {ps : List Pipeline}
  {s t : Shell Builtin} {as : List Addition} {b : Bool}

theorem OfBuiltins.isIdle_eq (hp : p.OfBuiltins s) : p.isIdle = false := by
  rw [Pipeline.isIdle, (hp p.first List.mem_cons_self).1, Bool.and_false]

theorem OfBuiltins.trail_eq (hp : p.OfBuiltins s) :
    p.trail e s = Job.trail e p.stages (Job.start s) := by
  rw [Pipeline.trail, hp.isIdle_eq]
  rfl

theorem OfBuiltins.start (hw : s.wiring = .own) (hp : p.OfBuiltins s) :
    Job.OfBuiltins p.stages (Job.start s) where
  wiring := hw
  files := rfl
  unread := rfl
  named c hc := (hp c hc).1
  builtin c hc := (hp c hc).2

variable (he : e.handler = Builtin.run) (hw : s.wiring = .own)

include he hw

theorem OfBuiltins.exists_runStages (hp : p.OfBuiltins s) (h : p.execute e s = .ok b t) :
    ∃ j, Job.runStages e p.stages (Job.start s) = .ok () j ∧
      t.world.tree = j.shell.world.tree := by
  have hexecute := h
  rw [execute_of_not_idle hp.isIdle_eq] at hexecute
  cases hrun : Job.run e p (Job.start s) with
  | error f j =>
    rw [hrun] at hexecute
    cases hexecute
  | ok a j' =>
    obtain ⟨_, hmost, -⟩ := ensure_eq_ok.mp hrun
    obtain ⟨_, j, hstages, -⟩ := bind_eq_ok.mp hmost
    have hafter := (hp.start hw).after he hstages
    have hheld : j.HoldsNothing := by
      rw [Job.HoldsNothing, hafter.files]
      nofun
    rw [Job.execute_of_holdsNothing hp.isIdle_eq hstages hw hheld hafter.unread] at h
    cases h
    exact ⟨j, hstages, rfl⟩

theorem OfBuiltins.gained (hp : p.OfBuiltins s) (hregular : Regular place s.world.tree)
    (herr : ∀ k ∈ p.trail e s, ∀ out, ¬k.Sends out (some place)) (h : p.execute e s = .ok b t)
    (hgathers : Gathers place (p.trail e s) as) : Gained place as s.world.tree t.world.tree := by
  obtain ⟨j, hstages, htree⟩ := hp.exists_runStages he hw h
  rw [hp.trail_eq] at herr hgathers
  rw [htree]
  exact Job.gained_runStages he (hp.start hw) hregular herr hstages hgathers

theorem OfBuiltins.ran (hp : p.OfBuiltins s) (hregular : Regular place s.world.tree)
    (herr : ∀ k ∈ p.trail e s, ∀ out, ¬k.Sends out (some place)) (h : p.execute e s = .ok b t)
    {k : Stage Builtin} (hk : k ∈ p.trail e s) : k.Ran e place t.world.tree := by
  obtain ⟨j, hstages, htree⟩ := hp.exists_runStages he hw h
  rw [hp.trail_eq] at herr hk
  rw [htree]
  exact Job.ran_of_mem_trail he (hp.start hw) hregular herr hstages hk

theorem OfBuiltins.touches (hp : p.OfBuiltins s) (h : p.execute e s = .ok b t) :
    Touches (fun _ _ => True) s.world.tree t.world.tree := by
  obtain ⟨j, hstages, htree⟩ := hp.exists_runStages he hw h
  rw [htree]
  exact Job.touches_runStages he (hp.start hw) hstages

theorem OfBuiltins.rests (hps : ∀ p ∈ ps, p.OfBuiltins s) (h : p.execute e s = .ok b t) :
    t.wiring = .own ∧ ∀ p ∈ ps, p.OfBuiltins t := by
  have hrests := (rests_execute (Engine.onlyRoams_of_run he) p).ok h
  refine ⟨hrests.wiring.trans hw, fun p hp c hc => ?_⟩
  rw [hrests.registry]
  exact hps p hp c hc

variable (hps : ∀ p ∈ ps, p.OfBuiltins s) (h : executeAll e ps s = .ok () t)

include hps h

theorem touches_executeAll : Touches (fun _ _ => True) s.world.tree t.world.tree := by
  induction ps generalizing s with
  | nil =>
    cases h
    exact refl_of (Touches _) _
  | cons p ps ih =>
    obtain ⟨b, s', hline, hrest⟩ := executeAll_cons_eq_ok.mp h
    have hp := hps p List.mem_cons_self
    obtain ⟨hw', hps'⟩ := OfBuiltins.rests he hw (List.forall_mem_of_forall_mem_cons hps) hline
    exact trans_of (Touches _) (hp.touches he hw hline) (ih hw' hps' hrest)

variable (hregular : Regular place s.world.tree)
  (herr : ∀ k ∈ trails e ps s, ∀ out, ¬k.Sends out (some place))

include hregular herr

/-- The stages of all lines add to the file one after the other. -/
theorem gained_executeAll (hgathers : Gathers place (trails e ps s) as) :
    Gained place as s.world.tree t.world.tree := by
  induction ps generalizing s as with
  | nil =>
    cases h
    cases hgathers
    exact ⟨hregular, rfl⟩
  | cons p ps ih =>
    obtain ⟨b, s', hline, hrest⟩ := executeAll_cons_eq_ok.mp h
    have hp := hps p List.mem_cons_self
    obtain ⟨hw', hps'⟩ := OfBuiltins.rests he hw (List.forall_mem_of_forall_mem_cons hps) hline
    rw [trails, hline] at herr hgathers
    obtain ⟨herr₁, herr₂⟩ := List.forall_mem_append.mp herr
    obtain ⟨first, more, rfl, hfirst, hmore⟩ := hgathers.exists_of_append
    have hgained := hp.gained he hw hregular herr₁ hline hfirst
    exact hgained.trans (ih hw' hps' hrest hgained.regular herr₂ hmore)

theorem ran_of_mem_trails {k : Stage Builtin} (hk : k ∈ trails e ps s) :
    k.Ran e place t.world.tree := by
  induction ps generalizing s with
  | nil => cases hk
  | cons p ps ih =>
    obtain ⟨b, s', hline, hrest⟩ := executeAll_cons_eq_ok.mp h
    have hp := hps p List.mem_cons_self
    obtain ⟨hw', hps'⟩ := OfBuiltins.rests he hw (List.forall_mem_of_forall_mem_cons hps) hline
    rw [trails, hline] at herr hk
    obtain ⟨herr₁, herr₂⟩ := List.forall_mem_append.mp herr
    obtain ⟨as, has⟩ := Gathers.exists_gathers place (p.trail e s)
    have hgained := hp.gained he hw hregular herr₁ hline has
    rcases List.mem_append.mp hk with hk | hk
    · exact (hp.ran he hw hregular herr₁ hline hk).later (touches_executeAll he hw' hps' hrest)
    · exact ih hw' hps' hrest hgained.regular herr₂ hk

end

/-- What stands in a file when some lines have been run one after the other. -/
structure Accumulates (e : Engine Builtin) (place : Location) (ps : List Pipeline)
    (s t : Shell Builtin) (as : List Addition) : Prop where
  /-- These are the additions of the stages whose output is sent to the file, in the order in which
  they run: for each the text that its builtin writes, or has written when it fails. -/
  gathers : ∀ bs, Gathers place (trails e ps s) bs ↔ bs = as
  /-- From the last one that truncates on, all texts are in the file, and nothing else is. -/
  truncated : ∀ before a after, as = before ++ a :: after → a.append = false →
    (∀ b ∈ after, b.append = true) → t.world.tree.content place =
      Text.encode (String.join ((a :: after).map Addition.text))
  /-- If none truncates, they come behind what the file held. -/
  appended : (∀ a ∈ as, a.append = true) → t.world.tree.content place =
    s.world.tree.content place ++ Text.encode (String.join (as.map Addition.text))
  /-- It is this file that the path of each target leads to, from where its stage began. -/
  found : ∀ k ∈ trails e ps s, ∀ path err, k.command.redirection.stdout.target = some path →
    k.Sends (some place) err →
      t.world.tree.read k.job.shell.world.dir path = .ok (t.world.tree.content place)

/-- What the builtins of any number of lines send to one file is in it from the last truncation on,
or behind what it held. -/
theorem executeAll_accumulates {e : Engine Builtin} {place : Location} {ps : List Pipeline}
    {s t : Shell Builtin} (he : e.handler = Builtin.run) (hw : s.wiring = .own)
    (hps : ∀ p ∈ ps, p.OfBuiltins s)
    (hfile : ∀ entry, s.world.tree.get? place = some entry → entry.IsFile)
    (herr : ∀ k ∈ trails e ps s, ∀ out, ¬k.Sends out (some place))
    (h : executeAll e ps s = .ok () t) : ∃ as, Accumulates e place ps s t as := by
  have hregular : Regular place s.world.tree := fun entry hentry => .inl (hfile entry hentry)
  have hran : ∀ k ∈ trails e ps s, k.Ran e place t.world.tree := fun k hk =>
    ran_of_mem_trails he hw hps h hregular herr hk
  obtain ⟨as, has⟩ := Gathers.exists_gathers place (trails e ps s)
  have hgained := gained_executeAll he hw hps h hregular herr has
  refine ⟨as, fun bs => ⟨fun hbs => ?_, ?_⟩, ?_, fun happend => ?_,
    fun k hk path err hpath hsends => ?_⟩
  · exact hbs.eq_of_gathers (fun k hk _ _ => (hran k hk).adds_unique he) has
  · rintro rfl
    exact has
  · rintro before a after rfl ha hafter
    rw [hgained.content, Addition.foldl_onto_of_truncates ha hafter]
  · rw [hgained.content, Addition.foldl_onto_of_append happend]
  · obtain ⟨_, hisFile, hreach⟩ := (hran k hk).reach he hpath hsends
    have hget := get?_of_reach hreach (ne_directory_of_isFile hisFile)
    obtain ⟨bytes, x, rfl⟩ := hisFile
    rw [read_of_reach hreach, content, hget]

/-- The first line truncates the file and adds to it in one pipeline. The builtin of the second has
copied a file when it fails. -/
def trialLogging : List Pipeline :=
  ["echo one 1> log | cat seed >> log", "cat seed '\x00' >> log"].map parse

def trialLogger : Shell Builtin :=
  .start ⟨⟨[(["log"], .file (Text.encode "old\n") false),
    (["seed"], .file (Text.encode "two\n") false)], 4096⟩, [], [], ⟨2024, 1, 1, 0, 0, 0, 0⟩, [],
    ⟨none, []⟩⟩ ⟨[("cat", .cat), ("echo", .echo)]⟩ none (.empty 0) "" (.text "")

def trialEngine : Engine Builtin :=
  ⟨Builtin.run, fun _ => .error .noEntry, 0, .ample⟩

theorem executeAll_accumulates_trial : ∃ t as,
    executeAll trialEngine trialLogging trialLogger = .ok () t ∧
      Accumulates trialEngine ["log"] trialLogging trialLogger t as ∧
      t.world.tree.content ["log"] = Text.encode "one\ntwo\ntwo\n" ∧
      t.errors = .text "cat: embedded null byte\n" := by
  have hrun : executeAll trialEngine trialLogging trialLogger = .ok () { trialLogger with
      world := { trialLogger.world with
        tree := ⟨[(["log"], .file (Text.encode "one\ntwo\ntwo\n") false),
          (["seed"], .file (Text.encode "two\n") false)], 4096⟩ }
      errors := .text "cat: embedded null byte\n" } := by
    decide +kernel
  have hstages : (trialLogging.all fun p => p.stages.all fun c => !c.isEmpty &&
      trialLogger.registry.isBuiltin c.name && c.redirection.stderr.target.isNone) = true := by
    decide
  simp only [List.all_eq_true, Bool.and_eq_true, Bool.not_eq_true', Option.isNone_iff_eq_none]
    at hstages
  have hfile : trialLogger.world.tree.get? ["log"] = some (.file (Text.encode "old\n") false) := by
    decide
  obtain ⟨as, has⟩ : ∃ as, Accumulates trialEngine ["log"] trialLogging trialLogger _ as :=
    executeAll_accumulates rfl rfl (fun p hp c hc => (hstages p hp c hc).1)
      (fun entry hentry => ⟨_, _, Option.some.inj (hentry.symm.trans hfile)⟩)
      (fun k hk out => by
        obtain ⟨p, hp, hc⟩ := exists_mem_stages hk
        exact Stage.not_sends_of_stderr (hstages p hp _ hc).2) hrun
  exact ⟨_, as, hrun, has, by decide, rfl⟩

end Pipeline

end PipelineShell
