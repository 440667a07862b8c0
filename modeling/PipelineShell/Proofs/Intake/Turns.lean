import PipelineShell.Proofs.Intake.Stages
import PipelineShell.Proofs.Survival.Endurance
import Mathlib.Data.List.TakeWhile

/-! How the loop uses up its input. Turn by turn it takes a line and runs it; the stages of the line
may draw all that follows it, or a process a part of the file behind what has been read ahead. So
the input is made of the lines, of what their stages drew, and of what nobody read, and there are no
more turns than lines. -/

namespace PipelineShell

namespace Text

/-- A line with its end, or one that the text ends with. -/
def IsLine (s : String) : Prop :=
  ∃ cs : List Char, '\n' ∉ cs ∧ (s.toList = cs ++ ['\n'] ∨ cs ≠ [] ∧ s.toList = cs)

def lineCount (s : String) : Nat :=
  s.toList.count '\n' + (s.toList.getLast?.any (· != '\n')).toNat

theorem isLine_cutLine {s : String} (h : s ≠ "") : IsLine (cutLine s).1 ∧
    ((cutLine s).1.toList.getLast? = some '\n' ∨ (cutLine s).2 = "") := by
  have hline : '\n' ∉ s.toList.takeWhile (· != '\n') := by
    intro hmem
    simpa using List.mem_takeWhile_imp hmem
  have hsplit := List.takeWhile_append_dropWhile (p := (· != '\n')) (l := s.toList)
  unfold cutLine
  dsimp only
  cases hrest : s.toList.dropWhile (· != '\n') with
  | nil =>
    have hne : s.toList.takeWhile (· != '\n') ≠ [] := by
      intro hnil
      rw [hnil, hrest] at hsplit
      exact h (String.toList_inj.mp (hsplit.symm.trans rfl))
    exact ⟨⟨_, hline, .inr ⟨hne, String.toList_ofList⟩⟩, .inr rfl⟩
  | cons c rest =>
    refine ⟨⟨_, hline, .inl String.toList_ofList⟩, .inl ?_⟩
    rw [String.toList_ofList, List.getLast?_concat]

theorem lineCount_of_isLine {s : String} (h : IsLine s) : lineCount s = 1 := by
  obtain ⟨cs, hcs, hs | ⟨hne, hs⟩⟩ := h
  · simp [lineCount, hs, List.count_eq_zero.mpr hcs]
  · have hlast : cs.getLast hne ≠ '\n' := fun hc => hcs (hc ▸ List.getLast_mem hne)
    simp [lineCount, hs, List.count_eq_zero.mpr hcs, List.getLast?_eq_some_getLast hne, hlast]

theorem lineCount_append {s t : String} (h : s.toList.getLast? = some '\n') :
    lineCount (s ++ t) = lineCount s + lineCount t := by
  cases ht : t.toList.getLast? with
  | none => simp [lineCount, List.getLast?_eq_none_iff.mp ht, h]
  | some c => simp [lineCount, List.getLast?_append, ht, h]; omega

theorem lineCount_cutLine {s : String} (h : s ≠ "") :
    lineCount s = lineCount (cutLine s).2 + 1 := by
  obtain ⟨hline, hend⟩ := isLine_cutLine h
  have hone := lineCount_of_isLine hline
  have hwhole := cutLine_append s
  rcases hend with hend | hrest
  · rw [← hwhole, lineCount_append hend, hone, hwhole]
    exact Nat.add_comm _ _
  · rw [hrest, String.append_empty] at hwhole
    rw [hrest, ← hwhole, hone]
    rfl

theorem lineCount_append_le (kept drawn rest : String) :
    lineCount (kept ++ rest) ≤ lineCount (kept ++ drawn ++ rest) := by
  cases hrest : rest.toList.getLast? with
  | some c =>
    simp [lineCount, List.getLast?_append, hrest]
  | none =>
    have hnil := List.getLast?_eq_none_iff.mp hrest
    cases hdrawn : drawn.toList.getLast? with
    | none => simp [lineCount, hnil, List.getLast?_eq_none_iff.mp hdrawn]
    | some c =>
      by_cases hc : c = '\n'
      · have hmem : '\n' ∈ drawn.toList := hc ▸ List.mem_of_getLast? hdrawn
        have hpos := List.count_pos_iff.mpr hmem
        have hone := Bool.toNat_le (kept.toList.getLast?.any (· != '\n'))
        simp only [lineCount, String.toList_append, hnil, List.append_nil, List.count_append]
        omega
      · have hone := Bool.toNat_le (kept.toList.getLast?.any (· != '\n'))
        have hend : (c != '\n') = true := by simpa using hc
        simp only [lineCount, String.toList_append, hnil, List.append_nil, List.count_append,
          List.getLast?_append, hdrawn, Option.some_or, Option.any_some, hend, Bool.toNat_true]
        omega

end Text

namespace Repl

open Shell

/-- One turn of the loop: a line with its end, and what the stages of the line drew after it. -/
structure Turn where
  line : String
  drawn : String

namespace Turn

def command (turn : Turn) : String :=
  if turn.line.endsWith "\n" then (turn.line.dropEnd 1).toString else turn.line

def text (turn : Turn) : String :=
  turn.line ++ turn.drawn

/-- What the turn leaves of the input. Something is kept between the line and what was drawn only
where it had been read ahead in a file. -/
def Leaves {τ : Type} (turn : Turn) (s t : Shell τ) : Prop :=
  ∃ kept rest, s.remaining = turn.line ++ kept ++ turn.drawn ++ rest ∧
    t.remaining = kept ++ rest ∧ (s.behind = none → kept = "")

end Turn

/-- How turns use up an input: each takes its line from the front and draws from what comes after.
-/
inductive Uses : String → List Turn → String → Prop
  | rest (text : String) : Uses text [] text
  | turn {kept rest left : String} {turn : Turn} {turns : List Turn}
      (h : Uses (kept ++ rest) turns left) :
      Uses (turn.line ++ kept ++ turn.drawn ++ rest) (turn :: turns) left

/-- How the loop leaves off: at the end of the input, at a line that stops the shell, or at one that
fails. -/
inductive Ending
  | exhausted
  | stopped
  | failed (f : Failure)

namespace Ending

def replEnd : Ending → ReplEnd
  | exhausted => .done
  | stopped => .done
  | failed f => .failed f

def prompts : Ending → Nat
  | exhausted => 1
  | stopped => 0
  | failed _ => 0

end Ending

/-- The turn that the loop takes next: the first line of what is left, with what the line draws once
it was taken. -/
structure Takes (e : Engine Builtin) (prompt : String) (s : Shell Builtin) (turn : Turn) :
    Prop where
  input : s.remaining ≠ ""
  line : turn.line = (Text.cutLine s.remaining).1
  drawn : LineDraws e turn.command (taken e.host.ahead prompt s) turn.drawn ∨
    turn.drawn = "" ∧ ∀ text, ¬LineDraws e turn.command (taken e.host.ahead prompt s) text

/-- The turns of the loop, from a shell to its end. Each begins with a prompt and runs its line
once, and the next begins where the line has left the shell. -/
inductive Turns (e : Engine Builtin) (prompt : String) :
    Shell Builtin → List Turn → Ending → Shell Builtin → Prop
  | exhausted {s : Shell Builtin} (hinput : s.remaining = "") :
      Turns e prompt s [] .exhausted { s with output := (s.output.write prompt).write "\n" }
  | stopped {s t : Shell Builtin} {turn : Turn} (hturn : Takes e prompt s turn)
      (hline : runLine e turn.command (taken e.host.ahead prompt s) = .ok false t) :
      Turns e prompt s [turn] .stopped t
  | failed {s t : Shell Builtin} {turn : Turn} {f : Failure} (hturn : Takes e prompt s turn)
      (hline : runLine e turn.command (taken e.host.ahead prompt s) = .error f t) :
      Turns e prompt s [turn] (.failed f) t
  | next {s t u : Shell Builtin} {turn : Turn} {turns : List Turn} {ending : Ending}
      (hturn : Takes e prompt s turn)
      (hline : runLine e turn.command (taken e.host.ahead prompt s) = .ok true t)
      (h : Turns e prompt t turns ending u) : Turns e prompt s (turn :: turns) ending u

/-- What the loop does last. At the end of the input it has written a prompt in vain, and ends that
line; otherwise all is as the last line has left it, and what it did not draw is unread. -/
def LeavesOff (e : Engine Builtin) (prompt : String) (turns : List Turn) (ending : Ending)
    (t : Shell Builtin) : Prop :=
  match ending with
  | .exhausted => ∃ s : Shell Builtin, s.remaining = "" ∧
      t = { s with output := (s.output.write prompt).write "\n" }
  | .stopped => ∃ s turn, turns.getLast? = some turn ∧ Takes e prompt s turn ∧
      runLine e turn.command (taken e.host.ahead prompt s) = .ok false t ∧ turn.Leaves s t
  | .failed f => ∃ s turn, turns.getLast? = some turn ∧ Takes e prompt s turn ∧
      runLine e turn.command (taken e.host.ahead prompt s) = .error f t ∧ turn.Leaves s t

section

variable {e : Engine Builtin} {prompt : String} {s t : Shell Builtin} {turn : Turn}
  {turns : List Turn} {ending : Ending}

theorem Takes.command (h : Takes e prompt s turn) : turn.command = typed s := by
  rw [Turn.command, h.line, typed]

theorem exists_takes (e : Engine Builtin) (prompt : String) (h : s.remaining ≠ "") :
    ∃ turn, Takes e prompt s turn := by
  by_cases hdraws : ∃ text, LineDraws e (typed s) (taken e.host.ahead prompt s) text
  · obtain ⟨text, htext⟩ := hdraws
    exact ⟨⟨_, text⟩, h, rfl, .inl htext⟩
  · exact ⟨⟨_, ""⟩, h, rfl, .inr ⟨rfl, fun text htext => hdraws ⟨text, htext⟩⟩⟩

theorem Loops.exists_turns {r : EStateM.Result Failure (Shell Builtin) Unit}
    (h : Loops e prompt s r) : ∃ turns ending t,
      Turns e prompt s turns ending t ∧ ended r = (ending.replEnd, t) := by
  induction h with
  | ends hinput => exact ⟨_, _, _, .exhausted hinput, rfl⟩
  | stops hinput hline =>
    obtain ⟨turn, hturn⟩ := exists_takes e prompt hinput
    exact ⟨_, _, _, .stopped hturn (hturn.command ▸ hline), rfl⟩
  | goesOn hinput hline h ih =>
    obtain ⟨turn, hturn⟩ := exists_takes e prompt hinput
    obtain ⟨turns, ending, t, hturns, hended⟩ := ih
    exact ⟨_, _, _, .next hturn (hturn.command ▸ hline) hturns, hended⟩
  | chokes hinput hline =>
    obtain ⟨turn, hturn⟩ := exists_takes e prompt hinput
    exact ⟨_, _, _, .failed hturn (hturn.command ▸ hline), rfl⟩
  | stalls hinput hline =>
    obtain ⟨turn, hturn⟩ := exists_takes e prompt hinput
    exact ⟨_, _, _, .failed hturn (hturn.command ▸ hline), rfl⟩

theorem behind_taken (ahead : String → Nat) (prompt : String) (s : Shell Builtin) :
    (taken ahead prompt s).behind = none ↔ s.behind = none := by
  unfold taken leave
  cases s.behind <;> simp

variable (he : e.handler = Builtin.run)

include he

/-- A turn uses up its line and what its stages draw, and leaves the rest for later. -/
theorem Takes.leaves (h : Takes e prompt s turn) (hw : s.wiring = .own)
    (ht : (runLine e turn.command).final (taken e.host.ahead prompt s) = t) :
    turn.Leaves s t ∧ Text.lineCount t.remaining + 1 ≤ Text.lineCount s.remaining := by
  subst ht
  have hcount := Text.lineCount_cutLine h.input
  have hwhole := Text.cutLine_append s.remaining
  have hwt : (taken e.host.ahead prompt s).wiring = .own := (wiring_leave _ _ _).trans hw
  have htaken : (taken e.host.ahead prompt s).remaining = (Text.cutLine s.remaining).2 :=
    remaining_leave _ _ _
  have hmemory := behind_taken e.host.ahead prompt s
  rw [← h.line, ← htaken] at hwhole
  rw [← htaken] at hcount
  obtain ⟨kept, rest, hbefore, hafter, hkept⟩ : ∃ kept rest,
      (taken e.host.ahead prompt s).remaining = kept ++ turn.drawn ++ rest ∧
        ((runLine e turn.command).final (taken e.host.ahead prompt s)).remaining = kept ++ rest ∧
        ((taken e.host.ahead prompt s).behind = none → kept = "") := by
    rcases h.drawn with hdraws | ⟨hnothing, hnot⟩
    · exact (hdraws.drawn he hwt).split
    · have hsame := sameInput_of_not_lineDraws he hwt hnot
      refine ⟨"", (taken e.host.ahead prompt s).remaining, by simp [hnothing], ?_, fun _ => rfl⟩
      rw [hsame.remaining, String.empty_append]
  refine ⟨⟨kept, rest, ?_, hafter, fun hnone => hkept (hmemory.mpr hnone)⟩, ?_⟩
  · rw [← hwhole, hbefore]
    simp only [String.append_assoc]
  · rw [hcount, hafter, hbefore]
    exact Nat.succ_le_succ (Text.lineCount_append_le kept turn.drawn rest)

theorem wiring_runLine (line : String) (hw : s.wiring = .own) {b : Bool}
    (h : runLine e line (taken e.host.ahead prompt s) = .ok b t) : t.wiring = .own :=
  ((rests_runLine (Engine.onlyRoams_of_run he) line).ok h).wiring.trans
    ((wiring_leave _ _ _).trans hw)

theorem behind_runLine (line : String) (hmemory : s.behind = none) {b : Bool}
    (h : runLine e line (taken e.host.ahead prompt s) = .ok b t) : t.behind = none := by
  obtain ⟨n, hbehind⟩ := ((rests_runLine (Engine.onlyRoams_of_run he) line).ok h).input.behind
  rw [hbehind, (behind_taken _ _ _).mpr hmemory, Option.map_none]

/-- The lines and what they drew make up the input, with what is kept and the rest. -/
theorem Turns.uses (h : Turns e prompt s turns ending t) (hw : s.wiring = .own) :
    Uses s.remaining turns t.remaining := by
  induction h with
  | exhausted hinput => exact .rest _
  | stopped hturn hline =>
    obtain ⟨kept, rest, hbefore, hafter, -⟩ := (hturn.leaves he hw (Attempt.final_of_ok hline)).1
    rw [hbefore, hafter]
    exact .turn (.rest _)
  | failed hturn hline =>
    obtain ⟨kept, rest, hbefore, hafter, -⟩ := (hturn.leaves he hw (Attempt.final_of_error hline)).1
    rw [hbefore, hafter]
    exact .turn (.rest _)
  | next hturn hline h ih =>
    obtain ⟨kept, rest, hbefore, hafter, -⟩ := (hturn.leaves he hw (Attempt.final_of_ok hline)).1
    have hrest := ih (wiring_runLine he _ hw hline)
    rw [hafter] at hrest
    rw [hbefore]
    exact .turn hrest

omit he in
theorem Turn.Leaves.joined (h : turn.Leaves s t) (hmemory : s.behind = none) :
    s.remaining = turn.text ++ t.remaining := by
  obtain ⟨kept, rest, hbefore, hafter, hkept⟩ := h
  rw [hbefore, hafter, hkept hmemory, Turn.text]
  simp only [String.append_empty, String.empty_append]

theorem Turns.joined (h : Turns e prompt s turns ending t) (hw : s.wiring = .own)
    (hmemory : s.behind = none) :
    s.remaining = String.join (turns.map Turn.text) ++ t.remaining := by
  induction h with
  | exhausted hinput => simp [remaining]
  | stopped hturn hline =>
    simpa using (hturn.leaves he hw (Attempt.final_of_ok hline)).1.joined hmemory
  | failed hturn hline =>
    simpa using (hturn.leaves he hw (Attempt.final_of_error hline)).1.joined hmemory
  | next hturn hline h ih =>
    have hstep := (hturn.leaves he hw (Attempt.final_of_ok hline)).1.joined hmemory
    have hrest := ih (wiring_runLine he _ hw hline) (behind_runLine he _ hmemory hline)
    rw [hstep, hrest, List.map_cons, String.join_cons, String.append_assoc]

theorem Turns.length_le (h : Turns e prompt s turns ending t) (hw : s.wiring = .own) :
    turns.length + Text.lineCount t.remaining ≤ Text.lineCount s.remaining := by
  induction h with
  | exhausted hinput => exact Nat.le_of_eq (Nat.zero_add _)
  | stopped hturn hline =>
    simpa [Nat.add_comm] using (hturn.leaves he hw (Attempt.final_of_ok hline)).2
  | failed hturn hline =>
    simpa [Nat.add_comm] using (hturn.leaves he hw (Attempt.final_of_error hline)).2
  | next hturn hline h ih =>
    have hstep := (hturn.leaves he hw (Attempt.final_of_ok hline)).2
    have hrest := ih (wiring_runLine he _ hw hline)
    rw [List.length_cons]
    omega

theorem Turns.leavesOff (h : Turns e prompt s turns ending t) (hw : s.wiring = .own) :
    LeavesOff e prompt turns ending t := by
  induction h with
  | exhausted hinput => exact ⟨_, hinput, rfl⟩
  | stopped hturn hline =>
    exact ⟨_, _, rfl, hturn, hline, (hturn.leaves he hw (Attempt.final_of_ok hline)).1⟩
  | failed hturn hline =>
    exact ⟨_, _, rfl, hturn, hline, (hturn.leaves he hw (Attempt.final_of_error hline)).1⟩
  | @next s t u turn turns ending hturn hline h ih =>
    have hlast := ih (wiring_runLine he _ hw hline)
    cases ending with
    | exhausted => exact hlast
    | stopped =>
      obtain ⟨s', turn', hturns, hrest⟩ := hlast
      exact ⟨s', turn', by rw [List.getLast?_cons, hturns]; rfl, hrest⟩
    | failed f =>
      obtain ⟨s', turn', hturns, hrest⟩ := hlast
      exact ⟨s', turn', by rw [List.getLast?_cons, hturns]; rfl, hrest⟩

omit he in
theorem Turns.isLine (h : Turns e prompt s turns ending t) :
    ∀ turn ∈ turns, Text.IsLine turn.line := by
  have hline : ∀ {s turn}, Takes e prompt s turn → Text.IsLine turn.line := fun hturn =>
    hturn.line ▸ (Text.isLine_cutLine hturn.input).1
  induction h with
  | exhausted hinput => simp
  | stopped hturn _ => simpa using hline hturn
  | failed hturn _ => simpa using hline hturn
  | next hturn _ _ ih => simpa using ⟨hline hturn, ih⟩

end

/-- How a shell uses up its input, from its beginning to its end. -/
structure UsesUp (e : Engine Builtin) (prompt : String) (s : Shell Builtin) (turns : List Turn)
    (ending : Ending) (t : Shell Builtin) : Prop where
  /-- It takes turns, one after the other, and is left as the last of them has left it. -/
  course : Turns e prompt s turns ending t
  /-- Nothing is read twice, and nothing is lost. -/
  input : Uses s.remaining turns t.remaining
  /-- In memory the lines and what they drew make up the input, in order, with the unread rest. -/
  memory : s.behind = none → s.remaining = String.join (turns.map Turn.text) ++ t.remaining
  lines : ∀ turn ∈ turns, Text.IsLine turn.line
  /-- There is a prompt for each line at most, and one more. -/
  prompts : turns.length + ending.prompts ≤ Text.lineCount s.remaining + 1
  /-- The loop leaves off without a word, unless it has come to the end of the input: then it ends
  the line with the prompt. -/
  last : LeavesOff e prompt turns ending t

theorem Turns.usesUp {e : Engine Builtin} {prompt : String} {s t : Shell Builtin}
    {turns : List Turn} {ending : Ending} (h : Turns e prompt s turns ending t)
    (he : e.handler = Builtin.run) (hw : s.wiring = .own) :
    UsesUp e prompt s turns ending t where
  course := h
  input := h.uses he hw
  memory := h.joined he hw
  lines := h.isLine
  prompts := by
    have hlength := h.length_le he hw
    have hprompts : ending.prompts ≤ 1 := by cases ending <;> simp [Ending.prompts]
    omega
  last := h.leavesOff he hw

end Repl

end PipelineShell
