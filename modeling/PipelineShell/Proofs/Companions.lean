import PipelineShell.Proofs.Transparency.Builtins

/-! Shells that no builtin can tell apart. Builtins look at few parts of the shell; where two shells
agree on these, they end alike. -/

namespace PipelineShell

namespace Attempt

variable {ε σ α β : Type} {R : σ → σ → Prop}

/-- Begun in two states of a relation, the attempt ends alike, and in states of the relation. -/
def Respects (R : σ → σ → Prop) (x : Attempt ε σ α) : Prop :=
  ∀ s t, R s t → Agree R R (x s) (x t)

theorem respects_pure (a : α) : Respects R (pure a : Attempt ε σ α) :=
  fun _ _ h => .ok h

theorem respects_throw (e : ε) : Respects R (throw e : Attempt ε σ α) :=
  fun _ _ h => .error h

theorem respects_modify {f : σ → σ} (hf : ∀ s t, R s t → R (f s) (f t)) :
    Respects R (modify f : Attempt ε σ PUnit) :=
  fun s t h => .ok (hf s t h)

theorem respects_get {f : σ → Attempt ε σ α} (hsame : ∀ s t, R s t → f t = f s)
    (hf : ∀ s, Respects R (f s)) : Respects R (get >>= f) := by
  intro s t h
  change Agree R R (f s s) (f t t)
  rw [hsame s t h]
  exact hf s s t h

theorem Respects.bind {x : Attempt ε σ α} {f : α → Attempt ε σ β} (hx : Respects R x)
    (hf : ∀ a, Respects R (f a)) : Respects R (x >>= f) :=
  fun s t h => (hx s t h).bind fun a s t h => hf a s t h

theorem Respects.ensure {x : Attempt ε σ α} {ending : Attempt ε σ Unit} (hx : Respects R x)
    (hend : Respects R ending) : Respects R (x.ensure ending) :=
  fun s t h => (hx s t h).ensure fun s t h => hend s t h

theorem Respects.handle {x : Attempt ε σ α} {h : ε → Option (Attempt ε σ α)} (hx : Respects R x)
    (hh : ∀ e y, h e = some y → Respects R y) : Respects R (x.handle h) := by
  intro s t hst
  refine (hx s t hst).handle (fun _ => Iff.rfl) fun e y z hy hz s t hst => ?_
  cases hy.symm.trans hz
  exact hh e y hy s t hst

theorem Respects.outcome {ε' : Type} {x : Attempt ε σ α} (hx : Respects R x) :
    Respects R (x.outcome : Attempt ε' σ (Except ε α)) := by
  intro s t h
  have hagree := hx s t h
  unfold Attempt.outcome
  generalize x s = v at hagree
  generalize x t = w at hagree
  cases hagree with
  | ok h => exact .ok h
  | error h => exact .ok h

theorem Respects.within {ρ : Type} {S : ρ → ρ → Prop} {get : σ → ρ} {put : ρ → σ → σ}
    {x : Attempt ε ρ α} (hx : Respects S x) (hget : ∀ s t, R s t → S (get s) (get t))
    (hput : ∀ s t p q, R s t → S p q → R (put p s) (put q t)) :
    Respects R (x.within get put) := by
  intro s t h
  have hagree := hx _ _ (hget s t h)
  unfold Attempt.within
  generalize x (get s) = v at hagree
  generalize x (get t) = w at hagree
  cases hagree with
  | ok hpq => exact .ok (hput _ _ _ _ h hpq)
  | error hpq => exact .error (hput _ _ _ _ h hpq)

end Attempt

open Shell Attempt

/-- Two shells of the relation write and read alike. -/
structure Hears {τ : Type} (R : Shell τ → Shell τ → Prop) : Prop where
  writes (stream : Stream) (text : String) : Respects R (writeOn stream text)
  reads : Respects R readAll

/-- Two shells of the relation agree on all that a builtin looks at, but for the bytes of files. -/
structure Companions {τ : Type} (R : Shell τ → Shell τ → Prop) : Prop extends Hears R where
  environment {s t : Shell τ} (h : R s t) : t.world.env = s.world.env
  moment {s t : Shell τ} (h : R s t) : t.world.now = s.world.now
  directory {s t : Shell τ} (h : R s t) : t.world.dir = s.world.dir
  accounts {s t : Shell τ} (h : R s t) : t.world.accounts = s.world.accounts
  registry {s t : Shell τ} (h : R s t) : t.registry = s.registry
  entries {s t : Shell τ} (h : R s t) (count : Int) :
    t.history.entries count = s.history.entries count
  located {s t : Shell τ} (h : R s t) (name : String) : t.locate name = s.locate name
  entered {s t : Shell τ} (h : R s t) (path : String) :
    (t.world.enter path).map World.dir = (s.world.enter path).map World.dir
  moves (dir : Location) : Respects R
    (modify fun s => { s with world := { s.world with dir := dir } } : Shell.Step τ PUnit)
  sleeps (seconds : Nat) : Respects R
    (modify fun s => { s with world := { s.world with slept := seconds :: s.world.slept } } :
      Shell.Step τ PUnit)

namespace Hears

variable {τ : Type} {R : Shell τ → Shell τ → Prop} (hR : Hears R)

include hR

theorem write (text : String) : Respects R (write text) :=
  hR.writes .stdout text

theorem line (stream : Stream) (text : String) : Respects R (printLine stream text) := by
  rw [printLine_eq]
  exact (hR.writes stream text).bind fun _ => hR.writes stream "\n"

theorem complainAbout (builtin path : String) (f : Fault) :
    Respects R (Builtin.complainAbout builtin path f) := by
  cases f with
  | refused r => exact hR.line _ _
  | nulByte => exact respects_throw _

theorem copyFiles {paths : List String}
    (hpaths : ∀ path ∈ paths, ∀ s t, R s t → t.world.read path = s.world.read path) :
    Respects R (Builtin.copyFiles paths) := by
  induction paths with
  | nil => exact respects_pure _
  | cons path paths ih =>
    have hcopy : Respects R (Builtin.copyFile path) := by
      refine respects_get (fun s t h => ?_) fun s => ?_
      · rw [hpaths path (by simp) s t h]
      · cases s.world.read path with
        | ok bytes => exact hR.write _
        | error f => exact respects_throw _
    refine (hcopy.handle fun f y hy => ?_).bind fun _ => ih fun p hp => hpaths p (by simp [hp])
    cases f with
    | fault f =>
      cases hy
      exact hR.complainAbout _ _ _
    | shell f => cases hy
    | other message => cases hy
    | endless => cases hy

theorem runCat {args : List String}
    (hargs : ∀ path ∈ args, ∀ s t, R s t → t.world.read path = s.world.read path) :
    Respects R (Builtin.runCat args) := by
  cases args with
  | nil => exact hR.reads.bind fun _ => (hR.write _).bind fun _ => respects_pure _
  | cons path paths => exact (hR.copyFiles hargs).bind fun _ => respects_pure _

end Hears

namespace Companions

variable {τ : Type} {R : Shell τ → Shell τ → Prop} (hR : Companions R)

include hR

theorem meaning {s t : Shell τ} (h : R s t) (name : String) :
    Builtin.meaning t name = Builtin.meaning s name := by
  unfold Builtin.meaning
  rw [hR.registry h, hR.located h]

theorem runType (names : List String) : Respects R (Builtin.runType names) := by
  induction names with
  | nil => exact respects_pure _
  | cons name names ih =>
    refine respects_get (fun s t h => ?_) fun s => ?_
    · rw [hR.meaning h]
    · cases Builtin.meaning s name <;> exact (hR.line _ _).bind fun _ => ih

theorem runWhich (names : List String) : Respects R (Builtin.runWhich names) := by
  induction names with
  | nil => exact respects_pure _
  | cons name names ih =>
    refine respects_get (fun s t h => ?_) fun s => ?_
    · rw [hR.meaning h]
    · cases Builtin.meaning s name <;> exact (hR.line _ _).bind fun _ => ih

theorem sayEntries (l : List (Nat × String)) : Respects R (Builtin.sayEntries l) := by
  induction l with
  | nil => exact respects_pure _
  | cons e l ih => exact (hR.line _ _).bind fun _ => ih

theorem runHistory (args : List String) : Respects R (Builtin.runHistory args) := by
  refine respects_get (fun s t h => ?_) fun s => (hR.sayEntries _).bind fun _ => respects_pure _
  rw [hR.entries h]

theorem sayVariables (env : Environment) : Respects R (Builtin.sayVariables env) := by
  induction env with
  | nil => exact respects_pure _
  | cons v env ih => exact (hR.line _ _).bind fun _ => ih

theorem runEnv (args : List String) : Respects R (Builtin.runEnv args) := by
  refine respects_get (fun s t h => ?_) fun s => (hR.sayVariables _).bind fun _ => respects_pure _
  rw [hR.environment h]

theorem runWhoami (args : List String) : Respects R (Builtin.runWhoami args) := by
  refine respects_get (fun s t h => ?_) fun s => ?_
  · rw [hR.environment h]
  · dsimp only
    cases Builtin.filled? s.world.env "USERNAME" <|> Builtin.filled? s.world.env "USER" <;>
      exact (hR.line _ _).bind fun _ => respects_pure _

theorem runDate (args : List String) : Respects R (Builtin.runDate args) := by
  refine respects_get (fun s t h => ?_) fun s => (hR.line _ _).bind fun _ => respects_pure _
  rw [hR.moment h]

theorem runPwd (args : List String) : Respects R (Builtin.runPwd args) := by
  refine respects_get (fun s t h => ?_) fun s => (hR.line _ _).bind fun _ => respects_pure _
  unfold World.directory
  rw [hR.directory h]

theorem runSleep (args : List String) : Respects R (Builtin.runSleep args) := by
  cases args with
  | nil => exact (hR.line _ _).bind fun _ => respects_pure _
  | cons a args =>
    unfold Builtin.runSleep
    dsimp only
    split
    · exact (hR.sleeps _).bind fun _ => respects_pure _
    · exact (hR.line _ _).bind fun _ => respects_pure _

theorem runCd (args : List String) : Respects R (Builtin.runCd args) := by
  rw [Builtin.runCd_eq]
  refine respects_get (fun s t h => ?_) fun s => ?_
  · have hentered := hR.entered h (Builtin.expandHome s.world (args.head?.getD "~"))
    have hhome : Builtin.expandHome t.world (args.head?.getD "~") =
        Builtin.expandHome s.world (args.head?.getD "~") := by
      unfold Builtin.expandHome
      rw [hR.environment h, hR.accounts h]
    rw [hhome]
    generalize t.world.enter _ = y at hentered ⊢
    generalize s.world.enter _ = x at hentered ⊢
    cases x <;> cases y <;> simp_all [Except.map]
  · cases s.world.enter (Builtin.expandHome s.world (args.head?.getD "~")) with
    | ok world => exact (hR.moves _).bind fun _ => respects_pure _
    | error f => exact (hR.complainAbout _ _ f).bind fun _ => respects_pure _

theorem run (b : Builtin) {args : List String} (hargs : b = .cat → ∀ path ∈ args,
    ∀ s t, R s t → t.world.read path = s.world.read path) : Respects R (b.run args) := by
  cases b with
  | cat => exact hR.runCat (hargs rfl)
  | cd => exact hR.runCd args
  | clear => exact (hR.write _).bind fun _ => respects_pure _
  | date => exact hR.runDate args
  | echo => exact (hR.line _ _).bind fun _ => respects_pure _
  | env => exact hR.runEnv args
  | exit => exact respects_pure _
  | history => exact hR.runHistory args
  | pwd => exact hR.runPwd args
  | sleep => exact hR.runSleep args
  | true => exact respects_pure _
  | type => exact hR.runType args
  | which => exact hR.runWhich args
  | whoami => exact hR.runWhoami args

end Companions

theorem Hears.runRepeated {τ : Type} {R : Shell τ → Shell τ → Prop} (hR : Hears R)
    (args : List String) : Respects R (Probe.runRepeated args) := by
  unfold Probe.runRepeated
  split
  · split
    · split
      · exact (hR.write _).bind fun _ => respects_pure _
      · exact respects_throw _
    · exact respects_throw _
  · exact respects_throw _

theorem Hears.probe {τ : Type} {R : Shell τ → Shell τ → Prop} (hR : Hears R) (p : Probe)
    (args : List String) : Respects R (p.run args) := by
  cases p with
  | upper => exact hR.reads.bind fun _ => (hR.write _).bind fun _ => respects_pure _
  | boom => exact (hR.write _).bind fun _ => respects_throw _
  | refuse =>
    cases args with
    | nil => exact (hR.write _).bind fun _ => respects_throw _
    | cons name args => exact (hR.write _).bind fun _ => respects_throw _
  | stop => exact respects_pure _
  | both => exact (hR.line _ _).bind fun _ => (hR.line _ _).bind fun _ => respects_pure _
  | repeated => exact hR.runRepeated args
  | count => exact hR.reads.bind fun _ => (hR.line _ _).bind fun _ => respects_pure _

end PipelineShell
