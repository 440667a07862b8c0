import PipelineShell.Proofs.Conduct.Stages
import PipelineShell.Proofs.Survival.Faults

/-! Why a stage raises a failure of the shell's own: its name is unknown, a target cannot be opened,
the system refuses to start it, or its builtin raises one. -/

namespace PipelineShell

/-- A stage without a name opens the target of its errors first, and any other that of its
output. -/
def Command.opensFirst (c : Command) : Destination :=
  if c.isEmpty then c.redirection.stderr else c.redirection.stdout

def Command.opensSecond (c : Command) : Destination :=
  if c.isEmpty then c.redirection.stdout else c.redirection.stderr

/-- One of two targets cannot be opened: the first, or the second when the first is open. -/
def Unopenable (dir : Location) (d d' : Destination) (t : FileTree) (path : String) (r : Refusal)
    (t' : FileTree) : Prop :=
  (d.target = some path ∧ d.openIn dir t = .error (.refused r) t') ∨
    ∃ place u, d.openIn dir t = .ok place u ∧ d'.target = some path ∧
      d'.openIn dir u = .error (.refused r) t'

namespace Shell

variable {τ α : Type} {s t u : Shell τ} {f : ShellFailure} {r : Redirection}

/-- Nothing but the tree has changed, and what a stage has for itself. -/
def TreeOnly (s t : Shell τ) : Prop :=
  t = { s with
    world := { s.world with tree := t.world.tree }
    given := t.given
    captured := t.captured
    outFile := t.outFile
    errFile := t.errFile }

theorem exists_target_of_openIn {dir : Location} {d : Destination} {tree tree' : FileTree}
    {fault : Fault} (h : d.openIn dir tree = .error fault tree') :
    ∃ path, d.target = some path := by
  unfold Destination.openIn at h
  cases hd : d.target with
  | none =>
    rw [hd] at h
    cases h
  | some path => exact ⟨path, rfl⟩

theorem targetFailure_eq_shell {path : String} {fault : Fault} :
    targetFailure path fault = .shell f ↔
      ∃ r, fault = .refused r ∧ f = .cannotRedirect path (.ofRefusal r) := by
  cases fault <;> simp [targetFailure, eq_comm]

theorem openHeld_eq_shell {d : Destination} : openHeld d s = .error (.shell f) t ↔
    ∃ path r tree, d.target = some path ∧
      d.openIn s.world.dir s.world.tree = .error (.refused r) tree ∧
      f = .cannotRedirect path (.ofRefusal r) ∧ t = s.setTree tree := by
  rw [openHeld_apply]
  cases hin : d.openIn s.world.dir s.world.tree with
  | ok place tree => simp
  | error fault tree =>
    obtain ⟨path, hpath⟩ := exists_target_of_openIn hin
    constructor
    · intro h
      obtain ⟨hfail, rfl⟩ := EStateM.Result.error.inj h
      obtain ⟨r, rfl, rfl⟩ := targetFailure_eq_shell.mp hfail
      exact ⟨_, r, tree, hpath, rfl, by rw [hpath]; rfl, rfl⟩
    · rintro ⟨path', r, tree', hpath', hin', rfl, rfl⟩
      cases hin'
      rw [hpath']
      rfl

theorem closeFile_of_start {stream : Stream} {place : Location} {append : Bool}
    (h : s.file stream = some (.start place append)) :
    closeFile stream s = .ok () (s.setFile stream none) := by
  have hclose : TextWriter.close (.start place append, s.world.tree) =
      .ok () (.start place append, s.world.tree) := rfl
  unfold closeFile Attempt.ensure
  rw [onFile_of_some h, hclose]
  cases stream <;> rfl

theorem closeDestination_took {d : Destination} {place : Option Location} {tree : FileTree}
    (tree' : FileTree) (hin : d.openIn s.world.dir s.world.tree = .ok place tree) :
    closeDestination .stdout d ((s.took .stdout d place tree).setTree tree') = .ok ()
      ((s.setTree tree').setFile .stdout (if d.target.isSome then none else s.outFile)) := by
  unfold Destination.openIn at hin
  cases hd : d.target with
  | none =>
    rw [hd] at hin
    cases hin
    have hnothing : (closeDestination .stdout d : Shell.Step τ Unit) = pure () := by
      simp [closeDestination, hd]
    exact congrFun hnothing _
  | some path =>
    rw [hd] at hin
    obtain ⟨opened, _, _, hp⟩ := Attempt.bind_eq_ok.mp hin
    cases hp
    rw [closeDestination, hd]
    exact closeFile_of_start rfl

theorem exists_redirected {path : String} {refusal : Refusal} {tree : FileTree}
    (h : Unopenable s.world.dir r.stdout r.stderr s.world.tree path refusal tree) : ∃ t,
      TreeOnly s t ∧ t.world.tree = tree ∧ ∀ step : Shell.Step τ α,
        redirected r step s = .error (.shell (.cannotRedirect path (.ofRefusal refusal))) t := by
  rcases h with ⟨hpath, hin⟩ | ⟨place, middle, hin, hpath, hin'⟩
  · refine ⟨s.setTree tree, rfl, rfl, fun step => ?_⟩
    rw [redirected_eq]
    refine Attempt.bind_of_error ?_ _
    rw [openDestination_apply, hin, hpath]
    rfl
  · have hopen : openDestination .stdout r.stdout s =
        .ok () (s.took .stdout r.stdout place middle) := by
      rw [openDestination_apply, hin]
    have hdir := took_dir s .stdout r.stdout place middle
    have htree := took_tree s .stdout r.stdout place middle
    refine ⟨(s.setTree tree).setFile .stdout (if r.stdout.target.isSome then none else s.outFile),
      rfl, rfl, fun step => ?_⟩
    rw [redirected_eq, Attempt.bind_of_ok hopen]
    refine Attempt.ensure_eq_error.mpr
      (.inr ⟨_, Attempt.bind_of_error ?_ _, closeDestination_took tree hin⟩)
    rw [openDestination_apply, hdir, htree, hin', hpath]
    rfl

theorem redirected_of_openTargets {step : Shell.Step τ α} (h : openTargets r s = .ok () t) :
    redirected r step s = closing r (bound (rewire r) step) t := by
  obtain ⟨_, s₁, hout, herr⟩ := Attempt.bind_eq_ok.mp h
  rw [redirected_eq, Attempt.bind_of_ok hout]
  exact Attempt.ensure_congr (Attempt.bind_of_ok herr _) _

theorem redirected_eq_shell {step : Shell.Step τ α}
    (h : redirected r step s = .error (.shell f) u) :
    (∃ path refusal tree, f = .cannotRedirect path (.ofRefusal refusal) ∧
      Unopenable s.world.dir r.stdout r.stderr s.world.tree path refusal tree) ∨
    ∃ t, openTargets r s = .ok () t ∧ closing r (bound (rewire r) step) t = .error (.shell f) u := by
  have hescapes : ∀ g, Attempt.Throws (· ≠ .shell g)
      (closeDestination .stdout r.stdout : Shell.Step τ Unit) :=
    fun g s' f' t' hf => (throws_closeDestination _ _ _ _ _ hf).escapes g
  rw [redirected_eq] at h
  rcases Attempt.bind_eq_error.mp h with hout | ⟨_, s₁, hout, hrest⟩
  · rw [openDestination_apply] at hout
    cases hin : r.stdout.openIn s.world.dir s.world.tree with
    | ok place tree =>
      rw [hin] at hout
      cases hout
    | error fault tree =>
      rw [hin] at hout
      obtain ⟨path, hpath⟩ := exists_target_of_openIn hin
      obtain ⟨refusal, rfl, rfl⟩ := targetFailure_eq_shell.mp (EStateM.Result.error.inj hout).1
      exact .inl ⟨_, refusal, tree, rfl, .inl ⟨by rw [hpath]; rfl, hin⟩⟩
  · cases herr : openDestination .stderr r.stderr s₁ with
    | ok a s₂ =>
      have hopen : openTargets r s = .ok () s₂ := Attempt.bind_eq_ok.mpr ⟨_, s₁, hout, herr⟩
      refine .inr ⟨s₂, hopen, ?_⟩
      rw [← redirected_of_openTargets hopen, redirected_eq]
      exact h
    | error g s₂ =>
      rcases Attempt.ensure_eq_error.mp hrest with hclose | ⟨_, hstep, _⟩
      · exact (hescapes f _ _ _ hclose rfl).elim
      · rw [Attempt.bind_of_error herr] at hstep
        cases hstep
        rw [openDestination_apply] at hout herr
        cases hin : r.stdout.openIn s.world.dir s.world.tree with
        | error fault tree =>
          rw [hin] at hout
          cases hout
        | ok place tree =>
          rw [hin] at hout
          cases hout
          rw [took_dir, took_tree] at herr
          cases hin' : r.stderr.openIn s.world.dir tree with
          | ok place' tree' =>
            rw [hin'] at herr
            cases herr
          | error fault tree' =>
            rw [hin'] at herr
            obtain ⟨path, hpath⟩ := exists_target_of_openIn hin'
            obtain ⟨refusal, rfl, rfl⟩ :=
              targetFailure_eq_shell.mp (EStateM.Result.error.inj herr).1
            exact .inl ⟨_, refusal, tree', rfl,
              .inr ⟨place, tree, hin, by rw [hpath]; rfl, hin'⟩⟩

end Shell

namespace Job

open Shell

variable {τ : Type} {e : Engine τ} {c : Command} {last : Bool} {j j' : Job τ} {f : ShellFailure}

structure Enters (c : Command) (last : Bool) (j : Job τ) (tag : τ) (entry : Shell τ) : Prop where
  named : c.isEmpty = false
  builtin : j.shell.registry.isBuiltin c.name = true
  resolves : j.shell.registry.resolve c.name = .ok tag
  opened : ∃ s, openTargets c.redirection (j.builtinShell last) = .ok () s ∧
    entry = { s with wiring := rewire c.redirection s.wiring }

def launching (e : Engine τ) (c : Command) (last : Bool) (path : String) (out err : Option Nat)
    (j : Job τ) : Except Refusal Output :=
  if j.isBusy path then .error .busy else e.programs (j.launchFor e c last path out err)

/-- Why a stage raises a failure of the shell's own, and what it has done by then. -/
inductive Raises (e : Engine τ) (c : Command) (last : Bool) (j : Job τ) :
    ShellFailure → Job τ → Prop
  /-- The name is unknown, and nothing at all has been done. -/
  | unknown (hc : c.isEmpty = false) (hb : j.shell.registry.isBuiltin c.name = false)
      (hl : j.shell.locate c.name = none) : Raises e c last j (.unknownCommand c.name) j
  /-- A target cannot be opened. What the builtins and the programs would do makes no difference. -/
  | target {path : String} {r : Refusal} {j' : Job τ}
      (hopen : Unopenable j.shell.world.dir c.opensFirst c.opensSecond j.shell.world.tree path r
        j'.shell.world.tree)
      (hshell : TreeOnly j.shell j'.shell) (hprocesses : j'.processes = j.processes)
      (hany : ∀ e' : Engine τ, runStage e' c last j =
        .error (.shell (.cannotRedirect path (.ofRefusal r))) j') :
      Raises e c last j (.cannotRedirect path (.ofRefusal r)) j'
  /-- The targets are open, and the process is refused. -/
  | spawn {path : String} {out err : Option BlockWriter} {s t : Shell τ} {r : Refusal}
      (hc : c.isEmpty = false) (hb : j.shell.registry.isBuiltin c.name = false)
      (hshell : TreeOnly j.shell t)
      (hl : j.shell.locate c.name = some path)
      (hout : openHeld c.redirection.stdout j.shell = .ok out s)
      (herr : openHeld c.redirection.stderr s = .ok err t)
      (hrefused : launching e c last path (out.map fun _ => j.fresh)
        (err.map fun _ => (j.hold out s).fresh) ((j.hold out s).hold err t) = .error r) :
      Raises e c last j (.cannotExecute c.name (.ofRefusal r)) ((j.hold out s).hold err t)
  /-- The builtin itself raises it, and its targets are closed. -/
  | handler {tag : τ} {entry v u w : Shell τ} {f : ShellFailure} {j' : Job τ}
      (hentry : Enters c last j tag entry)
      (hraised : e.handler tag c.args entry = .error (.shell f) v)
      (hflush : flush v.wiring.stdout v = .ok () u)
      (hclose : closeTargets c.redirection { u with wiring := (j.builtinShell last).wiring } =
        .ok () w)
      (hshell : j'.shell = { w with wiring := j.shell.wiring })
      (hfiles : j'.files = j.files) (hprocesses : j'.processes = j.processes) :
      Raises e c last j f j'

theorem treeOnly_of_openHeld {d d' : Destination} {s t u : Shell τ} {w w' : Option BlockWriter}
    (h : openHeld d s = .ok w t) (h' : openHeld d' t = .ok w' u) : TreeOnly s u := by
  rw [openHeld_apply] at h h'
  cases hin : d.openIn s.world.dir s.world.tree with
  | error f tree =>
    rw [hin] at h
    cases h
  | ok place tree =>
    rw [hin] at h
    cases h
    cases hin' : d'.openIn (s.setTree tree).world.dir (s.setTree tree).world.tree with
    | error f tree' =>
      rw [hin'] at h'
      cases h'
    | ok place' tree' =>
      rw [hin'] at h'
      cases h'
      rfl

theorem openDestination_eq_shell {d : Destination} :
    openDestination d j = .error (.shell f) j' ↔
      ∃ s, openHeld d j.shell = .error (.shell f) s ∧ j' = { j with shell := s } := by
  rw [openDestination_apply]
  cases openHeld d j.shell with
  | ok w s => simp
  | error g s =>
    constructor
    · rintro ⟨⟩
      exact ⟨s, rfl, rfl⟩
    · rintro ⟨_, ⟨rfl, rfl⟩, rfl⟩
      rfl

theorem opening_eq_shell {d d' : Destination} {α : Type}
    (next : Option Nat → Option Nat → Job.Step τ α)
    (h : (openDestination d >>= fun a => openDestination d' >>= fun b => next a b) j =
      .error (.shell f) j') :
    (∃ path r, f = .cannotRedirect path (.ofRefusal r) ∧
      Unopenable j.shell.world.dir d d' j.shell.world.tree path r j'.shell.world.tree ∧
      TreeOnly j.shell j'.shell ∧ j'.processes = j.processes ∧
      ∀ next' : Option Nat → Option Nat → Job.Step τ α,
        (openDestination d >>= fun a => openDestination d' >>= fun b => next' a b) j =
          .error (.shell f) j') ∨
    ∃ w s w' t, openHeld d j.shell = .ok w s ∧ openHeld d' s = .ok w' t ∧
      next (w.map fun _ => j.fresh) (w'.map fun _ => (j.hold w s).fresh) ((j.hold w s).hold w' t) =
        .error (.shell f) j' := by
  rcases Attempt.bind_eq_error.mp h with hfirst | ⟨_, j₁, hfirst, hrest⟩
  · have hany := fun next' : Option Nat → Option Nat → Job.Step τ α =>
      Attempt.bind_of_error hfirst fun a => openDestination d' >>= fun b => next' a b
    obtain ⟨s, hheld, rfl⟩ := openDestination_eq_shell.mp hfirst
    obtain ⟨path, r, tree, hpath, hin, rfl, rfl⟩ := openHeld_eq_shell.mp hheld
    exact .inl ⟨path, r, rfl, .inl ⟨hpath, hin⟩, rfl, rfl, hany⟩
  · obtain ⟨w, s, hheld, rfl, rfl⟩ := openDestination_eq_ok.mp hfirst
    rcases Attempt.bind_eq_error.mp hrest with hsecond | ⟨_, j₂, hsecond, hnext⟩
    · have hany : ∀ next' : Option Nat → Option Nat → Job.Step τ α,
          (openDestination d >>= fun a => openDestination d' >>= fun b => next' a b) j =
            .error (.shell f) j' := by
        intro next'
        rw [Attempt.bind_of_ok hfirst, Attempt.bind_of_error hsecond]
      obtain ⟨t, hheld', rfl⟩ := openDestination_eq_shell.mp hsecond
      rw [hold_shell] at hheld'
      obtain ⟨path, r, tree, hpath, hin, rfl, rfl⟩ := openHeld_eq_shell.mp hheld'
      rw [openHeld_apply] at hheld
      cases hin' : d.openIn j.shell.world.dir j.shell.world.tree with
      | error g u =>
        rw [hin'] at hheld
        cases hheld
      | ok place u =>
        rw [hin'] at hheld
        cases hheld
        have hprocesses : (j.hold (place.map (BlockWriter.start · d.append))
            (j.shell.setTree u)).processes = j.processes := by
          cases place <;> rfl
        exact .inl ⟨path, r, rfl, .inr ⟨place, u, hin', hpath, hin⟩, rfl, hprocesses, hany⟩
    · obtain ⟨w', t, hheld', rfl, rfl⟩ := openDestination_eq_ok.mp hsecond
      rw [hold_shell] at hheld'
      exact .inr ⟨w, s, w', t, hheld, hheld', hnext⟩

theorem escapes_takeIn (out : Option Nat) : Attempt.Throws Failure.Escapes (takeIn e out) := by
  cases out with
  | none => exact Attempt.throws_pure _
  | some n =>
    refine Attempt.throws_get.bind fun j => Attempt.Throws.bind ?_ fun _ => Attempt.throws_modify _
    cases j.pending with
    | nothing => exact Attempt.throws_pure _
    | text s =>
      exact (throws_onFile n (BlockWriter.throws_write _)).mono fun _ => Full.escapes
    | stream pipe pieces =>
      exact ((quiet_claim pipe .relay).bind fun _ => noted_startHelper.quiet.bind fun _ =>
        quiet_relayToFile n pipe _).throws

theorem raises_of_runEmpty (hc : c.isEmpty = true)
    (h : runStage e c last j = .error (.shell f) j') : Raises e c last j f j' := by
  rw [runStage_of_isEmpty hc, runEmpty_eq] at h
  rcases opening_eq_shell (fun _ out => takeIn e out) h with
    ⟨path, r, rfl, hopen, hshell, hprocesses, hany⟩ | ⟨w, s, w', t, _, _, hnext⟩
  · refine .target ?_ hshell hprocesses fun e' => ?_
    · simpa [Command.opensFirst, Command.opensSecond, hc] using hopen
    · rw [runStage_of_isEmpty hc, runEmpty_eq]
      exact hany fun _ out => takeIn e' out
  · exact (escapes_takeIn _ _ _ _ hnext f rfl).elim

theorem launch_apply {path : String} {out err : Option Nat}
    (hwords : (c.name :: c.args).all FileTree.isPath = true) : launch e c last path out err j =
      match launching e c last path out err j with
      | .error r => .error (.shell (.cannotExecute c.name (.ofRefusal r))) j
      | .ok output => attend last out err
          (e.host.draws (j.launchFor e c last path out err)) output j := by
  have h : launch e c last path out err j = (match launching e c last path out err j with
      | .error r => throw (.shell (.cannotExecute c.name (.ofRefusal r)))
      | .ok output => attend last out err
          (e.host.draws (j.launchFor e c last path out err)) output : Job.Step τ Unit) j := by
    unfold launch
    rw [hwords]
    rfl
  rw [h]
  cases launching e c last path out err j <;> rfl

theorem launch_eq_shell {path : String} {out err : Option Nat}
    (h : launch e c last path out err j = .error (.shell f) j') : ∃ r,
      launching e c last path out err j = .error r ∧ f = .cannotExecute c.name (.ofRefusal r) ∧
      j' = j := by
  cases hwords : (c.name :: c.args).all FileTree.isPath with
  | false =>
    unfold launch at h
    rw [hwords] at h
    cases h
  | true =>
    rw [launch_apply hwords] at h
    cases hl : launching e c last path out err j with
    | error r =>
      rw [hl] at h
      cases h
      exact ⟨r, rfl, rfl, rfl⟩
    | ok output =>
      rw [hl] at h
      exact ((quiet_attend last out err _ output).never _ _ _ h).elim

theorem raises_of_runProcess (hc : c.isEmpty = false)
    (hb : j.shell.registry.isBuiltin c.name = false)
    (h : runStage e c last j = .error (.shell f) j') : Raises e c last j f j' := by
  rw [runStage_of_program hc hb, runProcess_eq, Attempt.bind_of_ok (Attempt.get_apply _)] at h
  cases hl : j.shell.locate c.name with
  | none =>
    rw [hl] at h
    cases h
    exact .unknown hc hb hl
  | some path =>
    rw [hl] at h
    rcases opening_eq_shell (fun out err => launch e c last path out err) h with
      ⟨target, r, rfl, hopen, hshell, hprocesses, hany⟩ | ⟨out, s, err, t, hout, herr, hnext⟩
    · refine .target ?_ hshell hprocesses fun e' => ?_
      · simpa [Command.opensFirst, Command.opensSecond, hc] using hopen
      · rw [runStage_of_program hc hb, runProcess_eq, Attempt.bind_of_ok (Attempt.get_apply _), hl]
        exact hany fun out err => launch e' c last path out err
    · obtain ⟨r, hrefused, rfl, rfl⟩ := launch_eq_shell hnext
      exact .spawn hc hb (treeOnly_of_openHeld hout herr) hl hout herr hrefused

theorem runStage_of_unknown (hc : c.isEmpty = false)
    (hb : j.shell.registry.isBuiltin c.name = false) (hl : j.shell.locate c.name = none) :
    runStage e c last j = .error (.shell (.unknownCommand c.name)) j := by
  rw [runStage_of_program hc hb, runProcess_eq, Attempt.bind_of_ok (Attempt.get_apply _), hl]
  rfl

theorem treeOnly_of_builtinShell {t : Shell τ} (h : TreeOnly (j.builtinShell last) t) :
    TreeOnly j.shell { t with wiring := j.shell.wiring } := by
  unfold TreeOnly at h
  exact congrArg (fun s : Shell τ => { s with wiring := j.shell.wiring }) h

theorem runBuiltin_eq_shell {tag : τ} (h : runBuiltin e tag c last j = .error (.shell f) j') :
    ∃ u, invoke e tag c (j.builtinShell last) = .error (.shell f) u ∧
      j' = { j.emptied with shell := { u with wiring := j.shell.wiring } } := by
  rw [runBuiltin_apply] at h
  cases hi : invoke e tag c (j.builtinShell last) with
  | ok b u =>
    rw [hi] at h
    cases h
  | error g u =>
    rw [hi] at h
    cases h
    exact ⟨u, rfl, rfl⟩

/-- Apart from a file without room, a builtin fails as its handler does, and what is let out and
closed after that does not fail. -/
theorem full_or_raised_of_closing {tag : τ} {r : Redirection} {s u : Shell τ} {g : Failure}
    (h : closing r (bound (rewire r) (called e tag c)) s = .error g u) : Full g ∨ ∃ v w,
      e.handler tag c.args { s with wiring := rewire r s.wiring } = .error g v ∧
      flush v.wiring.stdout v = .ok () w ∧
      closeTargets r { w with wiring := s.wiring } = .ok () u := by
  rcases Attempt.ensure_eq_error.mp h with hfail | ⟨t₁, hinner, hout⟩
  · exact .inl (throws_closeDestination _ _ _ _ _ hfail)
  rcases Attempt.ensure_eq_error.mp hinner with hfail | ⟨_, hbound, herr⟩
  · exact .inl (throws_closeDestination _ _ _ _ _ hfail)
  obtain ⟨w, hcalled, rfl⟩ := bound_eq_error.mp hbound
  rcases Attempt.ensure_eq_error.mp hcalled with hfail | ⟨v, hhandled, hflush⟩
  · exact .inl (throws_flush _ _ _ _ hfail)
  rcases Attempt.handle_eq_error.mp hhandled with ⟨hraised, _⟩ | ⟨g', _, _, _, hy, hreport⟩
  · exact .inr ⟨v, w, hraised, hflush, Attempt.bind_eq_ok.mpr ⟨_, t₁, herr, hout⟩⟩
  · obtain ⟨-, rfl⟩ := reportAs_eq_some.mp hy
    exact .inl (((throws_complain _).bind fun _ => Attempt.throws_pure true) _ _ _ hreport)

theorem raises_of_runBuiltin (hc : c.isEmpty = false)
    (hb : j.shell.registry.isBuiltin c.name = true)
    (h : runStage e c last j = .error (.shell f) j') : Raises e c last j f j' := by
  obtain ⟨tag, htag⟩ := resolve_of_isBuiltin hb
  rw [runStage_of_resolve hc hb htag] at h
  obtain ⟨u, hinvoke, rfl⟩ := runBuiltin_eq_shell h
  rcases redirected_eq_shell hinvoke with ⟨path, r, tree, rfl, hopen⟩ | ⟨s, hopen, hclosing⟩
  · obtain ⟨t, honly, htree, hany⟩ := exists_redirected (α := Bool) hopen
    cases hinvoke.symm.trans (hany _)
    refine .target ?_ (treeOnly_of_builtinShell honly) rfl fun e' => ?_
    · simp only [htree, Command.opensFirst, Command.opensSecond, hc]
      exact hopen
    · rw [runStage_of_resolve hc hb htag, runBuiltin_apply, invoke, hany]
  · have hwiring := ((keeps_openTargets _).ok hopen).wiring
    obtain ⟨v, w, hraised, hflush, hclose⟩ :=
      (full_or_raised_of_closing hclosing).resolve_left fun h => h.escapes f rfl
    rw [hwiring] at hclose
    exact .handler ⟨hc, hb, htag, s, hopen, rfl⟩ hraised hflush hclose rfl rfl rfl

theorem raises_of_runStage (h : runStage e c last j = .error (.shell f) j') :
    Raises e c last j f j' := by
  cases hc : c.isEmpty with
  | true => exact raises_of_runEmpty hc h
  | false =>
    cases hb : j.shell.registry.isBuiltin c.name with
    | true => exact raises_of_runBuiltin hc hb h
    | false => exact raises_of_runProcess hc hb h

theorem invoke_fails_of_raised (he : e.GoesByWiring) {tag : τ} {entry v s t : Shell τ}
    (hplain : ∀ stream other, s.wiring.outlet stream ≠ .file other)
    (hroom : ∀ stream, (s.wiring.outlet stream).isFull = false)
    (hopen : openTargets c.redirection s = .ok () t)
    (hentry : entry = { t with wiring := rewire c.redirection t.wiring })
    (hraised : e.handler tag c.args entry = .error (.shell f) v) :
    Attempt.Fails Failure.Escapes (invoke e tag c) s ↔ LeavesDebt c.redirection False v := by
  subst hentry
  have hwiring : v.wiring = rewire c.redirection s.wiring := by
    obtain ⟨said, hacts⟩ := he tag c.args { t with wiring := rewire c.redirection t.wiring }
    have htold := hacts.told fun _ _ h => h
    rw [Attempt.final_of_error hraised] at htold
    rw [htold.wiring, ((keeps_openTargets _).ok hopen).wiring]
  have hout : ∀ stream, v.wiring.stdout = .file stream ↔
      stream = .stdout ∧ c.redirection.stdout.target.isSome = true := fun stream =>
    hwiring ▸ stdout_rewire_eq_file (hplain .stdout)
  have hhandle := Attempt.handle_of_none (h := reportAs c.name) hraised rfl
  have hflush : Attempt.Throws Failure.Escapes
      (do flush (← get).wiring.stdout : Shell.Step τ Unit) :=
    Attempt.throws_get.bind fun _ _ _ _ h => (throws_flush _ _ _ _ h).escapes
  have hheard : ¬Attempt.Fails Failure.Escapes ((e.handler tag c.args).handle (reportAs c.name))
      { t with wiring := rewire c.redirection t.wiring } := by
    rintro ⟨_, _, hfail, hescapes⟩
    rw [hhandle] at hfail
    cases hfail
    exact hescapes f rfl
  unfold Attempt.Fails
  rw [invoke, redirected_of_openTargets hopen]
  refine closing_fails_iff.trans ?_
  rw [Attempt.fails_ensure hflush, Attempt.final_ensure, or_iff_right hheard,
    Attempt.final_of_error hhandle]
  exact flushing_fails_iff (hwiring ▸ isFull_rewire hroom .stdout) hout

/-- A failure of the shell's own that a builtin raises comes out of its stage, unless what it has
left in its targets is owed to the full device. -/
theorem runStage_of_raised (he : e.GoesByWiring) {tag : τ} {entry v : Shell τ} {g : Failure}
    (hw : j.shell.wiring = .own) (hentry : Enters c last j tag entry)
    (hraised : e.handler tag c.args entry = .error (.shell f) v)
    (h : runStage e c last j = .error g j') :
    (LeavesDebt c.redirection False v → Full g) ∧
      (¬LeavesDebt c.redirection False v → g = .shell f) := by
  obtain ⟨t, hopen, hentered⟩ := hentry.opened
  have hfails :=
    invoke_fails_of_raised he (outlet_builtinShell_ne_file hw) (isFull_builtinShell hw) hopen
      hentered hraised
  rw [runStage_of_resolve hentry.named hentry.builtin hentry.resolves, runBuiltin_apply] at h
  cases hi : invoke e tag c (j.builtinShell last) with
  | ok b u =>
    rw [hi] at h
    cases h
  | error g' u =>
    rw [hi] at h
    cases h
    have hcases : Full g ∨ g = .shell f := by
      have hclosing := hi
      rw [invoke, redirected_of_openTargets hopen] at hclosing
      rcases full_or_raised_of_closing hclosing with hfull | ⟨_, _, hraised', _⟩
      · exact .inl hfull
      · rw [← hentered, hraised] at hraised'
        cases hraised'
        exact .inr rfl
    constructor
    · intro hdebt
      obtain ⟨_, _, hi', hescapes⟩ := hfails.mpr hdebt
      cases hi.symm.trans hi'
      exact hcases.resolve_right (hescapes f)
    · intro hdebt
      exact hcases.resolve_left fun hfull => hdebt (hfails.mp ⟨g, u, hi, hfull.escapes⟩)

end Job

end PipelineShell
