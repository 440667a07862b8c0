import PipelineShell.Proofs.Debts
import PipelineShell.Proofs.Orderly

/-! When a builtin fails in a way that nothing reports: a target cannot be a path at all, or what
was written is owed to the full device when it is let out. All other failures are reported. -/

namespace PipelineShell.Shell

variable {τ α : Type} {s t : Shell τ} {r : Redirection}

/-- What a builtin has left in its targets is owed to the full device. If it has failed, the line
that reports this is owed too, wherever that line has to go. -/
def LeavesDebt (r : Redirection) (failed : Prop) (s : Shell τ) : Prop :=
  (r.stdout.target.isSome = true ∧ s.Owes .stdout) ∨
    (r.stderr.target.isSome = true ∧ (s.Owes .stderr ∨ failed ∧ s.OnFull .stderr))

def closing (r : Redirection) (step : Shell.Step τ α) : Shell.Step τ α :=
  (step.ensure (closeDestination .stderr r.stderr)).ensure (closeDestination .stdout r.stdout)

theorem took_dir (s : Shell τ) (stream : Stream) (d : Destination) (place : Option Location)
    (t : FileTree) : (s.took stream d place t).world.dir = s.world.dir := by
  cases place <;> simp [took, setTree]

theorem took_tree (s : Shell τ) (stream : Stream) (d : Destination) (place : Option Location)
    (t : FileTree) : (s.took stream d place t).world.tree = t := by
  cases place <;> simp [took, setTree]

theorem openTargets_fails_iff : Attempt.Fails Failure.Escapes (openTargets r) s ↔
    MeetsNul s.world.dir r.stdout r.stderr s.world.tree := by
  unfold openTargets MeetsNul
  rw [Attempt.fails_bind, Attempt.fails_bind, openDestination_fails_iff]
  refine or_congr_right ?_
  rw [openDestination_apply]
  cases r.stdout.openIn s.world.dir s.world.tree with
  | ok place t =>
    have hstep : Attempt.Fails Failure.Escapes (openDestination .stderr r.stderr)
        (s.took .stdout r.stdout place t) ↔
          Attempt.Fails (· = .nulByte) (r.stderr.openIn s.world.dir) t := by
      rw [openDestination_fails_iff, took_dir, took_tree]
    constructor
    · rintro ⟨_, _, ⟨rfl, rfl⟩, h⟩
      exact ⟨place, t, rfl, hstep.mp h⟩
    · rintro ⟨_, _, ⟨rfl, rfl⟩, h⟩
      exact ⟨(), _, rfl, hstep.mpr h⟩
  | error f t => simp

theorem file_of_openDestination {stream : Stream} {d : Destination} {a : Unit}
    (h : openDestination stream d s = .ok a t) (hd : d.target.isSome = true) :
    ∃ place, t.file stream = some (.start place d.append) := by
  obtain ⟨path, hpath⟩ := Option.isSome_iff_exists.mp hd
  simp only [openDestination, hpath] at h
  obtain ⟨place, _, _, hset⟩ := Attempt.bind_eq_ok.mp h
  cases hset
  exact ⟨place, file_setFile_self _ _ _⟩

theorem not_owes_of_start {stream : Stream} {place : Location} {append : Bool}
    (h : s.file stream = some (.start place append)) : ¬s.Owes stream := by
  rintro ⟨w, hw, -, ho⟩
  rw [h] at hw
  cases hw
  rcases ho with ho | ho <;> cases ho

theorem file_of_openDestination_error {stream other : Stream} {d : Destination} {f : Failure}
    (h : openDestination other d s = .error f t) : t.file stream = s.file stream := by
  rw [openDestination_apply] at h
  cases hin : d.openIn s.world.dir s.world.tree with
  | ok place t' =>
    rw [hin] at h
    cases h
  | error f' t' =>
    rw [hin] at h
    cases h
    cases stream <;> rfl

theorem escapes_of_closeDestination (stream : Stream) (d : Destination) :
    Attempt.Throws Failure.Escapes (closeDestination stream d : Shell.Step τ Unit) :=
  fun _ _ _ h => (throws_closeDestination _ _ _ _ _ h).escapes

theorem fails_ensure_closeDestination {a : Unit} {s₁ : Shell τ}
    (hout : openDestination .stdout r.stdout s = .ok a s₁) (step : Shell.Step τ α) :
    Attempt.Fails Failure.Escapes ((openDestination .stderr r.stderr >>= fun _ => step).ensure
        (closeDestination .stdout r.stdout)) s₁ ↔
      Attempt.Fails Failure.Escapes (openDestination .stderr r.stderr) s₁ ∨ ∃ s',
        openDestination .stderr r.stderr s₁ = .ok () s' ∧ Attempt.Fails Failure.Escapes
          (step.ensure (closeDestination .stdout r.stdout)) s' := by
  have hescapes : Attempt.Throws Failure.Escapes
      (closeDestination .stdout r.stdout : Shell.Step τ Unit) :=
    escapes_of_closeDestination _ _
  rw [Attempt.fails_ensure hescapes]
  cases herr : openDestination .stderr r.stderr s₁ with
  | ok b s₂ =>
    rw [Attempt.fails_bind_of_ok herr, Attempt.final_bind_of_ok herr]
    have hno : ¬Attempt.Fails Failure.Escapes (openDestination .stderr r.stderr) s₁ :=
      Attempt.not_fails_of_ok herr
    simp [hno, Attempt.fails_ensure hescapes]
  | error f s₂ =>
    rw [Attempt.final_bind_of_error herr, closeDestination_fails_iff, Attempt.fails_bind]
    have hno : ¬(r.stdout.target.isSome = true ∧ s₂.Owes .stdout) := by
      rintro ⟨hsome, ho⟩
      obtain ⟨place, hfile⟩ := file_of_openDestination hout hsome
      exact not_owes_of_start ((file_of_openDestination_error herr).trans hfile) ho
    simp [hno, herr]

theorem redirected_fails_iff (step : Shell.Step τ α) :
    Attempt.Fails Failure.Escapes (redirected r step) s ↔
      MeetsNul s.world.dir r.stdout r.stderr s.world.tree ∨ ∃ s', openTargets r s = .ok () s' ∧
        Attempt.Fails Failure.Escapes (closing r (bound (rewire r) step)) s' := by
  rw [redirected_eq, ← openTargets_fails_iff, openTargets, Attempt.fails_bind, Attempt.fails_bind,
    or_assoc]
  refine or_congr_right ?_
  constructor
  · rintro ⟨a, s₁, hout, hfail⟩
    rcases (fails_ensure_closeDestination hout _).mp hfail with herr | ⟨s', herr, hfail⟩
    · exact .inl ⟨a, s₁, hout, herr⟩
    · exact .inr ⟨s', Attempt.bind_eq_ok.mpr ⟨a, s₁, hout, herr⟩, hfail⟩
  · rintro (⟨a, s₁, hout, herr⟩ | ⟨s', hopen, hfail⟩)
    · exact ⟨a, s₁, hout, (fails_ensure_closeDestination hout _).mpr (.inl herr)⟩
    · obtain ⟨a, s₁, hout, herr⟩ := Attempt.bind_eq_ok.mp hopen
      exact ⟨a, s₁, hout, (fails_ensure_closeDestination hout _).mpr (.inr ⟨s', herr, hfail⟩)⟩

theorem owes_bound (change : Wiring → Wiring) (step : Shell.Step τ α) (stream : Stream) :
    ((bound change step).final s).Owes stream ↔
      (step.final { s with wiring := change s.wiring }).Owes stream := by
  rw [final_bound]
  cases stream <;> exact Iff.rfl

theorem closing_fails_iff {step : Shell.Step τ α} :
    Attempt.Fails Failure.Escapes (closing r (bound (rewire r) step)) s ↔
      Attempt.Fails Failure.Escapes step { s with wiring := rewire r s.wiring } ∨
      LeavesDebt r False (step.final { s with wiring := rewire r s.wiring }) := by
  unfold closing
  rw [Attempt.fails_ensure (escapes_of_closeDestination _ _),
    Attempt.fails_ensure (escapes_of_closeDestination _ _), bound_fails_iff, Attempt.final_ensure,
    closeDestination_fails_iff, closeDestination_fails_iff,
    (spares_closeDestination (by decide) _ _).owes_iff, owes_bound, owes_bound, or_assoc]
  simp only [LeavesDebt, false_and, or_false]
  exact or_congr_right or_comm

theorem flushing_fails_iff (hroom : s.wiring.stdout.isFull = false)
    (hw : ∀ stream, s.wiring.stdout = .file stream ↔
      stream = .stdout ∧ r.stdout.target.isSome = true) :
    (Attempt.Fails Failure.Escapes (flush s.wiring.stdout) s ∨
      LeavesDebt r False ((flush s.wiring.stdout).final s)) ↔ LeavesDebt r False s := by
  have hother : s.wiring.stdout ≠ .file .stderr := fun h => by simpa using (hw .stderr).mp h
  have hfail : Attempt.Fails Failure.Escapes (flush s.wiring.stdout) s ↔
      r.stdout.target.isSome = true ∧ s.Owes .stdout := by
    simp [flush_fails_iff hroom, hw, and_assoc]
  have hsettled : r.stdout.target.isSome = true ∧
      ((flush s.wiring.stdout).final s).Owes .stdout →
        Attempt.Fails Failure.Escapes (flush s.wiring.stdout) s := by
    rintro ⟨hsome, ho⟩
    have hout := (hw .stdout).mpr ⟨rfl, hsome⟩
    rw [hout] at ho ⊢
    cases hflush : flush (.file .stdout) s with
    | ok a t => exact (not_owes_of_flush hflush (Attempt.final_of_ok hflush ▸ ho)).elim
    | error e t => exact ⟨e, t, hflush, (throws_flush _ _ _ _ hflush).escapes⟩
  simp only [LeavesDebt, false_and, or_false, (spares_flush hother s).owes_iff]
  constructor
  · rintro (h | h | h)
    · exact .inl (hfail.mp h)
    · exact .inl (hfail.mp (hsettled h))
    · exact .inr h
  · rintro (h | h)
    · exact .inl (hfail.mpr h)
    · exact .inr (.inr h)

theorem complaining_fails_iff (m : String) (hroom : s.wiring.stderr.isFull = false)
    (hw : ∀ stream, s.wiring.stderr = .file stream ↔
      stream = .stderr ∧ r.stderr.target.isSome = true) :
    (Attempt.Fails Failure.Escapes (complain m) s ∨ LeavesDebt r False ((complain m).final s)) ↔
      LeavesDebt r True s := by
  have hother : s.wiring.stderr ≠ .file .stdout := fun h => by simpa using (hw .stdout).mp h
  have hfull : Attempt.Fails Failure.Escapes (complain m) s →
      r.stderr.target.isSome = true ∧ s.OnFull .stderr := by
    intro hfail
    refine Classical.byContradiction fun hno =>
      not_fails_complain m hroom (fun stream hs hf => ?_) hfail
    obtain ⟨rfl, hsome⟩ := (hw stream).mp hs
    exact hno ⟨hsome, hf⟩
  simp only [LeavesDebt, false_and, or_false, true_and, (spares_complain m hother).owes_iff]
  constructor
  · rintro (h | h | ⟨hsome, ho⟩)
    · exact .inr ⟨(hfull h).1, .inr (hfull h).2⟩
    · exact .inl h
    · exact .inr ⟨hsome, .inr ((sameRoom_complain m s).mp ho.onFull)⟩
  · rintro (h | ⟨hsome, ho⟩)
    · exact .inr (.inl h)
    · have hf : s.OnFull .stderr := ho.elim Owes.onFull id
      rcases complain_of_onFull m ((hw .stderr).mpr ⟨rfl, hsome⟩) hf with h | h
      · exact .inl h
      · exact .inr (.inr ⟨hsome, h⟩)

theorem reporting_fails_iff {x : Shell.Step τ Bool} {name : String}
    (hroom : (x.final s).wiring.stderr.isFull = false)
    (hw : ∀ stream, (x.final s).wiring.stderr = .file stream ↔
      stream = .stderr ∧ r.stderr.target.isSome = true) :
    (Attempt.Fails Failure.Escapes (x.handle (reportAs name)) s ∨
      LeavesDebt r False ((x.handle (reportAs name)).final s)) ↔
    LeavesDebt r (Attempt.Fails Failure.Escapes x s) (x.final s) := by
  cases hx : x s with
  | ok b t =>
    have hhandle := Attempt.handle_of_ok hx (reportAs name)
    rw [Attempt.final_of_ok hhandle, Attempt.final_of_ok hx]
    simp only [Attempt.not_fails_of_ok hhandle, Attempt.not_fails_of_ok hx, false_or]
  | error f t =>
    rw [Attempt.final_of_error hx] at hroom hw ⊢
    cases hf : reportAs name f with
    | none =>
      have hhandle := Attempt.handle_of_none hx hf
      have hshell : ∃ g, f = .shell g := by
        cases f <;> simp [reportAs] at hf ⊢
      obtain ⟨g, rfl⟩ := hshell
      rw [Attempt.final_of_error hhandle]
      simp [Attempt.Fails, hhandle, hx, Failure.Escapes]
    | some y =>
      obtain ⟨hescapes, rfl⟩ := reportAs_eq_some.mp hf
      have hhandle := Attempt.handle_of_some hx hf
      have hfails : Attempt.Fails Failure.Escapes x s := ⟨f, t, hx, hescapes⟩
      rw [iff_true_intro hfails, ← complaining_fails_iff (name ++ ": " ++ f.message) hroom hw]
      simp only [Attempt.Fails, Attempt.final, hhandle, Attempt.bind_apply]
      cases complain (name ++ ": " ++ f.message) t <;> simp

/-- A builtin fails in a way that nothing reports: a target cannot be a path, or what was written
is owed to the full device when it is let out. -/
inductive CallChokes (e : Engine τ) (tag : τ) (c : Command) (s : Shell τ) : Prop
  | nul (h : MeetsNul s.world.dir c.redirection.stdout c.redirection.stderr s.world.tree)
  | debt {s' entry : Shell τ} (hopen : openTargets c.redirection s = .ok () s')
      (hentry : entry = { s' with wiring := rewire c.redirection s'.wiring })
      (h : LeavesDebt c.redirection (Attempt.Fails Failure.Escapes (e.handler tag c.args) entry)
        ((e.handler tag c.args).final entry))

theorem stdout_rewire_eq_file {w : Wiring} {stream : Stream}
    (hw : ∀ other, w.stdout ≠ .file other) : (rewire r w).stdout = .file stream ↔
      stream = .stdout ∧ r.stdout.target.isSome = true := by
  by_cases hsome : r.stdout.target.isSome = true
  · simp only [rewire, hsome, if_true, Outlet.file.injEq, and_true]
    exact eq_comm
  · simp [rewire, hsome, hw]

theorem stderr_rewire_eq_file {w : Wiring} {stream : Stream}
    (hw : ∀ other, w.stderr ≠ .file other) : (rewire r w).stderr = .file stream ↔
      stream = .stderr ∧ r.stderr.target.isSome = true := by
  by_cases hsome : r.stderr.target.isSome = true
  · simp only [rewire, hsome, if_true, Outlet.file.injEq, and_true]
    exact eq_comm
  · simp [rewire, hsome, hw]

theorem isFull_rewire {w : Wiring} (hw : ∀ stream, (w.outlet stream).isFull = false)
    (stream : Stream) : ((rewire r w).outlet stream).isFull = false := by
  cases stream <;> (simp only [rewire, Wiring.outlet]; split)
  · rfl
  · exact hw .stdout
  · rfl
  · exact hw .stderr

/-- All other failures of a builtin are reported. -/
theorem invoke_fails_iff {e : Engine τ} (he : e.OnlyRoams) {tag : τ} {c : Command}
    (hw : ∀ stream other, s.wiring.outlet stream ≠ .file other)
    (hroom : ∀ stream, (s.wiring.outlet stream).isFull = false) :
    Attempt.Fails Failure.Escapes (invoke e tag c) s ↔ CallChokes e tag c s := by
  have hcases : CallChokes e tag c s ↔
      MeetsNul s.world.dir c.redirection.stdout c.redirection.stderr s.world.tree ∨
      ∃ s', openTargets c.redirection s = .ok () s' ∧ LeavesDebt c.redirection
        (Attempt.Fails Failure.Escapes (e.handler tag c.args)
          { s' with wiring := rewire c.redirection s'.wiring })
        ((e.handler tag c.args).final { s' with wiring := rewire c.redirection s'.wiring }) := by
    constructor
    · rintro (h | ⟨hopen, rfl, h⟩)
      · exact .inl h
      · exact .inr ⟨_, hopen, h⟩
    · rintro (h | ⟨s', hopen, h⟩)
      · exact .nul h
      · exact .debt hopen rfl h
  rw [hcases, invoke, redirected_fails_iff]
  refine or_congr_right (exists_congr fun s' => and_congr_right fun hopen => ?_)
  have hs' : s'.wiring = s.wiring := ((keeps_openTargets _).ok hopen).wiring
  rw [closing_fails_iff]
  generalize hentry : ({ s' with wiring := rewire c.redirection s'.wiring } : Shell τ) = entry
  have hwiring : entry.wiring = rewire c.redirection s.wiring := by rw [← hentry, hs']
  have hout : ∀ stream, entry.wiring.stdout = .file stream ↔
      stream = .stdout ∧ c.redirection.stdout.target.isSome = true := fun stream =>
    hwiring ▸ stdout_rewire_eq_file (hw .stdout)
  have herr : ∀ stream, entry.wiring.stderr = .file stream ↔
      stream = .stderr ∧ c.redirection.stderr.target.isSome = true := fun stream =>
    hwiring ▸ stderr_rewire_eq_file (hw .stderr)
  have hfull : ∀ stream, (entry.wiring.outlet stream).isFull = false := fun stream =>
    hwiring ▸ isFull_rewire hroom stream
  have hafter := (he tag c.args entry).rests.wiring
  have hbody : (((e.handler tag c.args).handle (reportAs c.name)).final entry).wiring =
      entry.wiring := (rests_reported he tag c entry).wiring
  have hflush : Attempt.Throws Failure.Escapes
      (do flush (← get).wiring.stdout : Shell.Step τ Unit) :=
    Attempt.throws_get.bind fun _ _ _ _ h => (throws_flush _ _ _ _ h).escapes
  rw [Attempt.fails_ensure hflush, Attempt.final_ensure, or_assoc,
    ← reporting_fails_iff (hafter ▸ hfull .stderr) (hafter ▸ herr)]
  exact or_congr_right (flushing_fails_iff (hbody ▸ hfull .stdout) (hbody ▸ hout))

/-- A builtin that fails, and not with a failure of the shell's own, says so in its errors, and the
shell goes on. What it wrote is let out after that. -/
theorem complains_of_invoke {e : Engine τ} {tag : τ} {c : Command} {s' w u : Shell τ} {f : Failure}
    {b : Bool} (hopen : openTargets c.redirection s = .ok () s')
    (hfail : e.handler tag c.args { s' with wiring := rewire c.redirection s'.wiring } = .error f w)
    (hf : f.Escapes) (h : invoke e tag c s = .ok b u) : b = true ∧ ∃ t t',
      complain (c.name ++ ": " ++ f.message) w = .ok () t ∧ flush t.wiring.stdout t = .ok () t' ∧
      closeTargets c.redirection { t' with wiring := s'.wiring } = .ok () u := by
  obtain ⟨_, t', hopen', hstep, hclose⟩ := redirected_eq_ok.mp h
  cases hopen.symm.trans hopen'
  obtain ⟨t, hbody, hflush⟩ := Attempt.ensure_eq_ok.mp hstep
  rw [Attempt.handle_of_some hfail (reportAs_eq_some.mpr ⟨hf, rfl⟩)] at hbody
  obtain ⟨_, _, hcomplain, hb⟩ := Attempt.bind_eq_ok.mp hbody
  cases hb
  exact ⟨rfl, t, t', hcomplain, hflush, hclose⟩

end PipelineShell.Shell
