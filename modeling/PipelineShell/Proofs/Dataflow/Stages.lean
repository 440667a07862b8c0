import PipelineShell.Proofs.Dataflow.Calls
import PipelineShell.Proofs.Jobs

/-! The stages of a job do what the fold says. Between two stages the job and the fold agree on the
shell, on the open targets and on the text that is pending, if there is one. -/

namespace PipelineShell.Dataflow

open Shell

variable {τ : Type} {e : Engine τ} {r : Registry τ} {before : List Command} {c : Command}
  {x : Current τ} {j j' : Job τ}

/-- The job has the shell and the open targets that the fold has. -/
structure Stands (r : Registry τ) (x : Current τ) (j : Job τ) : Prop where
  shell : j.shell = x.shell
  wiring : x.shell.wiring = .own
  registry : x.shell.registry = r
  files : j.files.map (·.2) = x.targets
  numbered : j.Numbered

/-- The job before its next stage. No text at all is pending while no stage has fed one. -/
structure Follows (r : Registry τ) (before : List Command) (x : Current τ) (j : Job τ) : Prop
    extends Stands r x j where
  pending : j.pending = if before.any Command.feeds then .text x.text else .nothing
  blank : before.any Command.feeds = false → x.text = ""

theorem follows_start {s : Shell τ} (hs : s.wiring = .own) :
    Follows s.registry [] ⟨s, "", []⟩ (Job.start s) where
  shell := rfl
  wiring := hs
  registry := rfl
  files := rfl
  numbered := .start s
  pending := rfl
  blank _ := rfl

theorem any_feeds_append_of_feeds (h : c.feeds = true) :
    (before ++ [c]).any Command.feeds = true := by
  simp [h]

theorem any_feeds_append_of_not_feeds (h : c.feeds = false) :
    (before ++ [c]).any Command.feeds = before.any Command.feeds := by
  simp [h]

theorem openHeld_isSome {d : Destination} {s t : Shell τ} {w : Option BlockWriter}
    (h : openHeld d s = .ok w t) : w.isSome = d.target.isSome := by
  unfold openHeld at h
  cases hd : d.target with
  | none =>
    simp only [hd, Attempt.pure_apply] at h
    cases h
    rfl
  | some path =>
    simp only [hd] at h
    obtain ⟨place, u, _, hp⟩ := Attempt.bind_eq_ok.mp h
    cases hp
    rfl

theorem write_of_pour {n : Nat} {place : Location} {append : Bool} (hj : Follows r before x j)
    {j₁ j₂ : Job τ} (hn : j₁.Numbered) (hw : j₁.file? n = some (.start place append))
    (h : Job.pour e n j.pending j₁ = .ok () j₂) : ∃ w t,
      BlockWriter.write (Text.encode x.text) (.start place append, j₁.shell.world.tree) =
        .ok () (w, t) ∧ j₂ = j₁.setFile n w t := by
  rw [hj.pending] at h
  cases hf : before.any Command.feeds with
  | true =>
    simp only [hf, Job.pour, if_true, Job.onFile_of_file? hw] at h
    cases hwrite : BlockWriter.write (Text.encode x.text)
        (.start place append, j₁.shell.world.tree) with
    | ok a p =>
      rw [hwrite] at h
      exact ⟨p.1, p.2, rfl, (EStateM.Result.ok.inj h).2.symm⟩
    | error f p =>
      rw [hwrite] at h
      cases h
  | false =>
    simp only [hf, Job.pour, Bool.false_eq_true, if_false] at h
    rw [hj.blank hf]
    exact ⟨_, _, BlockWriter.write_start_of_le place append (Nat.zero_le _),
      (hn.setFile_self hw).symm ▸ (EStateM.Result.ok.inj h).2.symm⟩

theorem passed_of_runEmpty (hj : Follows r before x j) (hc : c.isEmpty = true)
    (h : Job.runEmpty e c.redirection j = .ok () j') : ∃ y, Passed c.redirection x y ∧
      Follows r (before ++ [c]) y j' ∧ j'.keepGoing = j.keepGoing := by
  rw [Job.runEmpty_eq] at h
  obtain ⟨_, _, hopen, h⟩ := Attempt.bind_eq_ok.mp h
  obtain ⟨err, s, herr, -, rfl⟩ := Job.openDestination_eq_ok.mp hopen
  obtain ⟨_, _, hopen, h⟩ := Attempt.bind_eq_ok.mp h
  obtain ⟨out, t, hout, rfl, rfl⟩ := Job.openDestination_eq_ok.mp hopen
  rw [hj.shell] at herr
  rw [Job.hold_shell] at hout
  have hs := (keeps_openHeld _).ok herr
  have ht := (keeps_openHeld _).ok hout
  have hwiring : t.wiring = .own := by rw [ht.wiring, hs.wiring, hj.wiring]
  have hregistry : t.registry = r := by rw [ht.registry, hs.registry, hj.registry]
  have hsome := openHeld_isSome hout
  cases out with
  | none =>
    cases h
    have hfeeds : c.feeds = false := by
      simp [Command.feeds, hc, Command.redirects, Redirection.get, ← hsome]
    have hn := (hj.numbered.hold err s).hold none t
    refine ⟨_, .on herr hout, ⟨⟨rfl, hwiring, hregistry, ?_, hn⟩, ?_, ?_⟩, ?_⟩
    · rw [← hj.files]
      exact Job.map_files_hold j err s
    · rw [any_feeds_append_of_not_feeds hfeeds]
      exact (Job.hold_pending j err s).trans hj.pending
    · rw [any_feeds_append_of_not_feeds hfeeds]
      exact hj.blank
    · exact Job.hold_keepGoing j err s
  | some w =>
    have hfeeds : c.feeds = true := by
      simp [Command.feeds, Command.redirects, Redirection.get, ← hsome]
    obtain ⟨place, rfl⟩ := openHeld_eq_ok_some hout
    rw [Option.map_some, Job.takeIn, Attempt.bind_of_ok (Attempt.get_apply _),
      Job.hold_pending, Job.hold_pending] at h
    obtain ⟨_, j₂, hpour, hset⟩ := Attempt.bind_eq_ok.mp h
    cases hset
    have hn := (hj.numbered.hold err s).hold (some (.start place c.redirection.stdout.append)) t
    obtain ⟨w, tree, hwrite, rfl⟩ := write_of_pour hj hn (Job.file?_hold ..) hpour
    refine ⟨_, .into herr hout hwrite, ⟨⟨rfl, hwiring, hregistry, ?_, ?_⟩, ?_, ?_⟩, ?_⟩
    · rw [← hj.files, ← Job.map_files_hold]
      exact Job.map_files_setFile_hold (hj.numbered.hold err s) _ w t tree
    · exact ⟨(hn.setFile _ w tree).nodup, (hn.setFile _ w tree).below⟩
    · rw [any_feeds_append_of_feeds hfeeds]
      rfl
    · simp [hfeeds]
    · exact (Job.hold_keepGoing _ _ _).trans (Job.hold_keepGoing j err s)

theorem drain_of_follows (hj : Follows r before x j) : Job.drain j =
    .ok (if before.any Command.feeds then some x.text else none) j := by
  simp only [Job.drain, Attempt.bind_apply, Attempt.get_apply, hj.pending]
  cases before.any Command.feeds <;> rfl

/-- A builtin stage does what the fold says. Nothing is pending after the last one. -/
theorem called_of_runBuiltin (he : e.GoesByWiring) (hj : Follows r before x j) {tag : τ}
    (hc : c.isEmpty = false) (hr : r.resolve c.name = .ok tag) {last : Bool}
    (h : Job.runBuiltin e tag c last j = .ok () j') : ∃ k : Call τ, ∃ y, k.command = c ∧
      Called e before last x k y ∧ Stands r y j' ∧
      (last = false → Follows r (before ++ [c]) y j') ∧ (last = true → j'.pending = .nothing) ∧
      j'.keepGoing = (j.keepGoing && k.goesOn) := by
  obtain ⟨given, j₁, hdrain, h⟩ := Attempt.bind_eq_ok.mp h
  rw [drain_of_follows hj] at hdrain
  cases hdrain
  obtain ⟨_, j₂, hset, h⟩ := Attempt.bind_eq_ok.mp h
  cases hset
  obtain ⟨goesOn, j₃, hinvoke, hset⟩ := Attempt.bind_eq_ok.mp h
  cases hset
  obtain ⟨s, hs, rfl⟩ := Job.inShell_eq_ok.mp hinvoke
  obtain ⟨u, hu, rfl⟩ := bound_eq_ok.mp hs
  have hwired : { j.shell with
      given := (if before.any Command.feeds then some x.text else none).getD "", captured := "",
      wiring := stageWiring (if before.any Command.feeds then some x.text else none).isSome last
        j.shell.wiring } = x.wired (streams (before.any Command.feeds) last) := by
    simp only [hj.shell, hj.wiring, Current.wired]
    cases hf : before.any Command.feeds
    · simp [hj.blank hf, stageWiring, Wiring.stageOutput, streams, Wiring.own]
    · simp [stageWiring, Wiring.stageOutput, streams, Wiring.own]
  have hinv : invoke e tag c (x.wired (streams (before.any Command.feeds) last)) = .ok goesOn u :=
    hwired ▸ hu
  obtain ⟨k, y, hk, rfl, hcalled, hy, htext, hreg⟩ :=
    exists_called he (hj.registry.symm ▸ hr) hinv
  have hshell : ({ u with wiring := j.shell.wiring } : Shell τ) = y.shell := by
    rw [hj.shell, hj.wiring, hy]
  have hstands : ∀ p b, Stands r y { j with
      shell := { u with wiring := j.shell.wiring }, pending := p, keepGoing := b } := fun p b =>
    { shell := hshell
      wiring := by rw [hy]
      registry := by rw [hy]; exact hreg.trans hj.registry
      files := hj.files.trans hcalled.targets.symm
      numbered := ⟨hj.numbered.nodup, hj.numbered.below⟩ }
  have hfeeds : c.feeds = true := by simp [Command.feeds, hc]
  refine ⟨k, y, hk, hcalled, hstands _ _, fun hl => ⟨hstands _ _, ?_, ?_⟩, fun hl => ?_, rfl⟩
  · rw [any_feeds_append_of_feeds hfeeds, if_pos rfl, ← htext hl]
    simp [hl]
  · simp [hfeeds]
  · simp [hl]

end PipelineShell.Dataflow
