import PipelineShell.Proofs.Abort.Causes
import PipelineShell.Proofs.Conduct.Frames
import PipelineShell.Proofs.Numbering.Histories
import PipelineShell.Proofs.Survival.Lines

/-! The history over a session. A line that is not blank enters the history before it runs, and
stays there however it ends; nothing else changes the history. -/

namespace PipelineShell

namespace History

variable {h : History}

theorem getLast?_add (hl : 0 ≤ h.limit) (p : Pipeline) :
    (h.add p).kept.getLast? = some (h.next, p) := by
  rw [add, trim]
  dsimp only
  split
  · exact List.getLast?_concat
  · have hfew : (h.kept ++ [(h.next, p)]).length - h.limit.toNat ≤ h.kept.length := by
      rw [List.length_append, List.length_singleton]
      omega
    rw [List.drop_append_of_le_length hfew, List.getLast?_concat]

theorem getLast?_entries (hl : 0 ≤ h.limit) (p : Pipeline) (count : Int) :
    ((h.add p).entries count).getLast? = some (h.next, p.render) := by
  have hlast := getLast?_add hl p
  obtain ⟨before, hkept⟩ := List.getLast?_eq_some_iff.mp hlast
  rw [entries, hkept]
  dsimp only
  split
  · have hfew : (before ++ [(h.next, p)]).length - count.toNat ≤ before.length := by
      rw [List.length_append, List.length_singleton]
      omega
    rw [List.drop_append_of_le_length hfew, List.map_append, List.map_singleton,
      List.getLast?_concat]
  · rw [List.map_append, List.map_singleton, List.getLast?_concat]

end History

namespace Shell

variable {τ : Type} {s t : Shell τ}

def SameHistory (s t : Shell τ) : Prop :=
  t.history = s.history

instance : IsPreorder (Shell τ) SameHistory where
  refl _ := rfl
  trans _ _ _ h h' := h'.trans h

theorem WorksOn.sameHistory (h : WorksOn s t) : SameHistory s t :=
  h.history

theorem Roams.sameHistory (h : Roams s t) : SameHistory s t := by
  rw [SameHistory, h]

end Shell

open Shell

/-- No builtin adds to the history, nor takes from it. -/
def Engine.LeavesHistory {τ : Type} (e : Engine τ) : Prop :=
  ∀ tag args, Attempt.Keeps SameHistory (e.handler tag args)

theorem Engine.OnlyRoams.leavesHistory {τ : Type} {e : Engine τ} (he : e.OnlyRoams) :
    e.LeavesHistory := by
  intro tag args s
  obtain ⟨said, hacts⟩ := he tag args s
  refine hacts.keeps (fun s stream text => ?_) (fun s => ?_) fun _ _ => Roams.sameHistory
  · exact (worksOn_writeTo (s.wiring.outlet stream) text s).sameHistory
  · rw [final_readAll]
    cases s.wiring.stdin <;> rfl

theorem sameHistory_drawn {τ : Type} (s : Shell τ) (amount : Nat) :
    Shell.SameHistory s (Job.drawn s amount) := by
  unfold Job.drawn
  cases s.behind <;> rfl

theorem Builtin.leavesHistory (programs : Programs) (chunkSize : Int) (host : Host) :
    Engine.LeavesHistory ⟨Builtin.run, programs, chunkSize, host⟩ :=
  (Builtin.onlyRoams programs chunkSize host).leavesHistory

section

variable {τ : Type} {e : Engine τ} (he : e.LeavesHistory)

include he

theorem Pipeline.history_execute (p : Pipeline) (s : Shell τ) :
    ((p.execute e).final s).history = s.history :=
  p.keeps_execute (fun _ _ => WorksOn.sameHistory) sameHistory_drawn he s

/-- However a line ends, it is in the history, unless it is blank. -/
theorem Shell.history_runLine (line : String) (s : Shell τ) : ((runLine e line).final s).history =
    if (Pipeline.parse line).isIdle then s.history else s.history.add (Pipeline.parse line) := by
  cases hp : (Pipeline.parse line).isIdle with
  | true =>
    rw [Attempt.final_of_ok (runLine_of_isIdle hp)]
    rfl
  | false =>
    have hreport : Attempt.Keeps SameHistory (((Pipeline.parse line).execute e).handle report) := by
      refine Attempt.Keeps.handle (Pipeline.history_execute he _) fun f y hy => ?_
      obtain ⟨g, rfl, rfl⟩ := report_eq_some.mp hy
      exact ((worksOn_complain _).mono fun _ _ => WorksOn.sameHistory).bind fun _ =>
        Attempt.keeps_pure _
    have hfinal : (runLine e line).final s =
        (((Pipeline.parse line).execute e).handle report).final (s.noted line) := by
      rw [Attempt.final, runLine_apply hp, Attempt.final]
    rw [hfinal]
    exact hreport (s.noted line)

theorem Job.history_passing {cs : List Command} {s : Shell τ} {j : Job τ}
    (h : Job.passing e cs (Job.start s) = .ok () j) : j.shell.history = s.history :=
  (Job.along_passing (fun _ _ => WorksOn.sameHistory) sameHistory_drawn he cs).ok h

end

theorem Job.Enters.history {τ : Type} {c : Command} {last : Bool} {j : Job τ} {tag : τ}
    {entry : Shell τ} (h : Job.Enters c last j tag entry) : entry.history = j.shell.history := by
  obtain ⟨t, hopen, rfl⟩ := h.opened
  exact ((keeps_openTargets _).ok hopen).worksOn.history

def Shell.afterLines {τ : Type} (e : Engine τ) (s : Shell τ) (lines : List String) : Shell τ :=
  lines.foldl (fun s line => (runLine e line).final s) s

def History.ofLines (lines : List String) : List History.Change :=
  ((lines.map Pipeline.parse).filter (!·.isIdle)).map fun p => .add (some p)

theorem Shell.history_afterLines {τ : Type} {e : Engine τ} (he : e.LeavesHistory)
    (lines : List String) (s : Shell τ) : (s.afterLines e lines).history =
      (History.ofLines lines).foldl History.change s.history := by
  induction lines generalizing s with
  | nil => rfl
  | cons line lines ih =>
    have hfirst := Shell.history_runLine he line s
    rw [afterLines, List.foldl_cons, ← afterLines, ih, hfirst]
    cases hp : (Pipeline.parse line).isIdle with
    | true => simp [hp, History.ofLines]
    | false => simp [hp, History.ofLines, History.change, History.addIf]

namespace History

theorem after_append (limit : Int) (cs more : List Change) :
    after limit (cs ++ more) = more.foldl change (after limit cs) := by
  rw [after, List.foldl_append]
  rfl

theorem ofLines_concat {line : String} (h : (Pipeline.parse line).isIdle = false)
    (lines : List String) :
    ofLines (lines ++ [line]) = ofLines lines ++ [.add (some (Pipeline.parse line))] := by
  simp [ofLines, h]

theorem limit_after (limit : Int) (cs : List Change) : (after limit cs).limit = limit :=
  (records_after limit cs).bounded

def trialShell : Shell Builtin :=
  .start ⟨⟨[], 4096⟩, [], [], ⟨2024, 1, 1, 0, 0, 0, 0⟩, [], ⟨none, []⟩⟩ ⟨[("history", .history)]⟩
    none (.empty 2) "" (.text "")

def trialEngine : Engine Builtin :=
  ⟨Builtin.run, fun _ => .error .noEntry, 0, .ample⟩

end History

end PipelineShell
