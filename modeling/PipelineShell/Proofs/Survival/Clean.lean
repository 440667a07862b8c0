import PipelineShell.Proofs.Lexing.Characters
import PipelineShell.Proofs.Paths
import PipelineShell.Proofs.Survival.Loop

/-! A line without a NUL neither ends the shell nor keeps it for ever, unless the full device is
there to be written to. -/

namespace PipelineShell

/-- A destination that is no target, or one that can be a path. -/
def Destination.IsClean (d : Destination) : Prop :=
  ∀ path, d.target = some path → FileTree.isPath path = true

theorem Destination.IsClean.throws_openIn {d : Destination} (h : d.IsClean) (dir : Location) :
    Attempt.Throws (· ≠ .nulByte) (d.openIn dir) := by
  unfold openIn
  cases hd : d.target with
  | none => exact Attempt.throws_pure _
  | some path =>
    refine Attempt.Throws.bind (fun _ f _ hf hnul => ?_) fun _ => Attempt.throws_pure _
    have hbad := FileTree.throws_openTarget dir path d.append _ _ _ hf hnul
    rw [h path hd] at hbad
    cases hbad

theorem not_meetsNul {d d' : Destination} (h : d.IsClean) (h' : d'.IsClean) (dir : Location)
    (t : FileTree) : ¬MeetsNul dir d d' t := by
  rintro ⟨f, t', hf, hnul⟩
  exact ((h.throws_openIn dir).bind fun _ => h'.throws_openIn dir) _ _ _ hf hnul

def Command.IsClean (c : Command) : Prop :=
  c.Forall (FileTree.isPath · = true)

namespace Command.IsClean

variable {c : Command} (h : c.IsClean)

include h

theorem stdout : c.redirection.stdout.IsClean := fun t ht => h.targets .stdout t ht

theorem stderr : c.redirection.stderr.IsClean := fun t ht => h.targets .stderr t ht

end Command.IsClean

theorem Pipeline.isClean_of_mem_parse {line : String} (h : '\x00' ∉ line.toList) {c : Command}
    (hc : c ∈ (parse line).stages) : c.IsClean := by
  have hpath : ∀ t : String, t.toList ⊆ backslash :: line.toList → FileTree.isPath t = true := by
    intro t ht
    refine FileTree.isPath_iff.mpr fun hnul => ?_
    rcases List.mem_cons.mp (ht hnul) with hslash | hin
    · exact absurd hslash (by decide)
    · exact h hin
  have hall := forall_parse line c hc
  exact ⟨fun t ht => hpath t (hall.words t ht), fun s t ht => hpath t (hall.targets s t ht)⟩

namespace Shell

variable {τ : Type} {e : Engine τ} {s : Shell τ}

theorem not_onFull (h : s.world.tree.Roomy) (stream : Stream) : ¬s.OnFull stream := by
  rintro ⟨w, _, hf⟩
  exact h _ hf

theorem not_callChokes (he : e.OnlyRoams) {tag : τ} {c : Command} (hc : c.IsClean)
    (h : s.world.tree.Roomy) : ¬CallChokes e tag c s := by
  rintro (hnul | @⟨_, entry, hopen, hentry, hdebt⟩)
  · exact not_meetsNul hc.stdout hc.stderr _ _ hnul
  · have hroomy : entry.world.tree.Roomy := by
      rw [hentry]
      exact h.of_noNewDevice ((keeps_openTargets _).ok hopen).devices
    have hend := hroomy.of_noNewDevice (he tag c.args entry).rests.devices
    rcases hdebt with ⟨_, ho⟩ | ⟨_, ho | ⟨_, hf⟩⟩
    · exact not_onFull hend _ ho.onFull
    · exact not_onFull hend _ ho.onFull
    · exact not_onFull hend _ hf

end Shell

namespace Job

open Shell

variable {τ : Type} {e : Engine τ} {c : Command} {cs : List Command} {j : Job τ}

theorem not_passChokes (hc : c.IsClean) (h : j.shell.world.tree.Roomy) : ¬PassChokes c j := by
  rintro (hnul | ⟨herr, hout, _, hf, _⟩)
  · exact not_meetsNul hc.stderr hc.stdout _ _ hnul
  · have hs := h.of_noNewDevice ((keeps_openHeld _).ok herr).devices
    exact hs.of_noNewDevice ((keeps_openHeld _).ok hout).devices _ hf

theorem not_startChokes (hc : c.IsClean) : ¬StartChokes c j := by
  rintro (⟨_, hnul⟩ | ⟨_, _, _, hw⟩)
  · exact not_meetsNul hc.stdout hc.stderr _ _ hnul
  · rw [List.all_eq_true.mpr hc.words] at hw
    cases hw

theorem not_stageChokes (he : e.OnlyRoams) (hc : c.IsClean) (h : j.shell.world.tree.Roomy)
    (last : Bool) : ¬StageChokes e c last j := by
  unfold StageChokes
  split
  · exact not_passChokes hc h
  · split
    · rintro ⟨tag, _, hcall⟩
      exact not_callChokes he hc (s := j.builtinShell last) h hcall
    · exact not_startChokes hc

theorem not_chokes (he : e.OnlyRoams) (hcs : ∀ c ∈ cs, c.IsClean)
    (h : j.shell.world.tree.Roomy) : ¬Chokes e cs j := by
  intro hchokes
  induction hchokes with
  | here hstage => exact not_stageChokes he (hcs _ List.mem_cons_self) h _ hstage
  | later hstage _ ih =>
    refine ih (fun c hc => hcs c (List.mem_cons_of_mem _ hc)) ?_
    exact h.of_noNewDevice ((orderly_runStage he _ _).ok hstage).rests.devices

theorem not_stuck_runStages (he : e.OnlyRoams) {s : Shell τ} (h : s.world.tree.Roomy) (room : Nat) :
    ¬((runStages e cs).final (Job.start s)).Stuck room :=
  (accounts_runStages cs [] _ (accounted_start s)).not_stuck
    ((orderly_runStages he cs (Job.start s)).unread h rfl)

theorem not_owing (h : j.shell.world.tree.Roomy) : ¬j.Owing := by
  rintro ⟨f, _, hf, _⟩
  exact h _ hf

end Job

theorem Pipeline.not_chokes {τ : Type} {e : Engine τ} (he : e.OnlyRoams) {p : Pipeline}
    (hp : ∀ c ∈ p.stages, c.IsClean) {s : Shell τ} (h : s.world.tree.Roomy) : ¬p.Chokes e s := by
  rintro ⟨_, hstage | howing⟩
  · exact Job.not_chokes he hp h hstage
  · have hend := (Job.orderly_runStages he p.stages (Job.start s)).rests.devices
    exact Job.not_owing (h.of_noNewDevice hend) howing

theorem Shell.not_lineStalls {τ : Type} {e : Engine τ} (he : e.OnlyRoams) {line : String}
    {s : Shell τ} (h : s.world.tree.Roomy) : ¬LineStalls e line s :=
  fun hstalls => Job.not_stuck_runStages he (s := s.noted line) h _ hstalls.2

/-- Neither of the two failures comes of a line without a NUL, in a tree without the device. -/
theorem Shell.not_lineChokes {τ : Type} {e : Engine τ} (he : e.OnlyRoams) {line : String}
    (hline : '\x00' ∉ line.toList) {s : Shell τ} (h : s.world.tree.Roomy) :
    ¬LineChokes e line s :=
  Pipeline.not_chokes he (fun _ hc => Pipeline.isClean_of_mem_parse hline hc) h

theorem Text.cutLine_append (s : String) : (cutLine s).1 ++ (cutLine s).2 = s := by
  have hparts := List.takeWhile_append_dropWhile (p := (· != '\n')) (l := s.toList)
  have hend := List.head?_dropWhile_not (· != '\n') s.toList
  unfold cutLine
  dsimp only
  cases hd : s.toList.dropWhile (· != '\n') with
  | nil =>
    rw [hd, List.append_nil] at hparts
    rw [hparts, String.ofList_toList, String.append_empty]
  | cons c rest =>
    rw [hd] at hparts hend
    have hc : c = '\n' := by simpa using hend
    subst hc
    rw [← String.ofList_append, List.append_assoc, List.singleton_append, hparts,
      String.ofList_toList]

theorem Text.toList_cutLine (s : String) :
    (cutLine s).1.toList ++ (cutLine s).2.toList = s.toList := by
  rw [← String.toList_append, cutLine_append]

namespace Repl

open Shell

variable {τ : Type} {e : Engine τ} {s : Shell τ} {prompt : String}
  {r : EStateM.Result Failure (Shell τ) Unit}

theorem typed_subset (s : Shell τ) : (typed s).toList ⊆ s.remaining.toList := by
  have hline : (typed s).toList ⊆ (Text.cutLine s.remaining).1.toList := by
    unfold typed
    dsimp only
    split
    · have hcut := String.toList_copy_dropEnd (s := (Text.cutLine s.remaining).1) (n := 1)
      exact fun c hc => List.mem_of_mem_take (hcut ▸ hc)
    · exact List.Subset.refl _
  exact fun c hc => Text.toList_cutLine s.remaining ▸ List.mem_append_left _ (hline hc)

/-- An input without a NUL is read to its end, or to a line that stops the shell. -/
theorem Loops.exists_ok (he : e.OnlyRoams) (h : Loops e prompt s r)
    (hinput : '\x00' ∉ s.remaining.toList) (hroomy : s.world.tree.Roomy) : ∃ t, r = .ok () t := by
  induction h with
  | ends _ => exact ⟨_, rfl⟩
  | stops _ _ => exact ⟨_, rfl⟩
  | @goesOn s t r _ hline _ ih =>
    have hrests := (rests_runLine he (typed s)).ok hline
    have htaken : (taken e.host.ahead prompt s).world.tree.Roomy :=
      (tree_leave ..).symm ▸ hroomy
    refine ih (fun hnul => hinput ?_) (htaken.of_noNewDevice hrests.devices)
    have hleft := hrests.input.remaining_subset hnul
    rw [taken, remaining_leave] at hleft
    exact Text.toList_cutLine s.remaining ▸ List.mem_append_right _ hleft
  | @chokes s t f _ _ _ hchokes =>
    have htaken : (taken e.host.ahead prompt s).world.tree.Roomy :=
      (tree_leave ..).symm ▸ hroomy
    exact (not_lineChokes he (fun hnul => hinput (typed_subset s hnul)) htaken hchokes).elim
  | @stalls s t _ _ hstalls =>
    have htaken : (taken e.host.ahead prompt s).world.tree.Roomy :=
      (tree_leave ..).symm ▸ hroomy
    exact (not_lineStalls he htaken hstalls).elim

end Repl

end PipelineShell
