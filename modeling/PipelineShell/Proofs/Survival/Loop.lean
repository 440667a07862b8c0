import PipelineShell.Proofs.Survival.Lines
import PipelineShell.Repl

/-! The loop leaves off at the end of the input, at a line that stops the shell, or at a line that
ends it unreported. Each round takes a line from the input, so the bound on lines is no limit. -/

namespace PipelineShell

theorem Text.length_cutLine_lt {s : String} (h : s ≠ "") : (cutLine s).2.length < s.length := by
  have hlength := (List.dropWhile_sublist (l := s.toList) (· != '\n')).length_le
  rw [← String.length_toList (s := s)]
  unfold cutLine
  dsimp only
  cases hrest : s.toList.dropWhile (· != '\n') with
  | nil =>
    have hne : s.toList ≠ [] := fun hnil => h (String.toList_inj.mp (hnil.trans rfl))
    simpa using List.length_pos_iff.mpr hne
  | cons c rest =>
    rw [hrest] at hlength
    simpa using Nat.lt_of_succ_le hlength

namespace Repl

open Shell

variable {τ : Type} {e : Engine τ} {s t : Shell τ} {prompt : String} {n : Nat}

def typed (s : Shell τ) : String :=
  let line := (Text.cutLine s.remaining).1
  if line.endsWith "\n" then (line.dropEnd 1).toString else line

def taken (ahead : String → Nat) (prompt : String) (s : Shell τ) : Shell τ :=
  leave ahead (Text.cutLine s.remaining).2 { s with output := s.output.write prompt }

/-- How the loop goes, from a shell to its end. -/
inductive Loops (e : Engine τ) (prompt : String) :
    Shell τ → EStateM.Result Failure (Shell τ) Unit → Prop
  | ends {s : Shell τ} (hinput : s.remaining = "") :
      Loops e prompt s (.ok () { s with output := (s.output.write prompt).write "\n" })
  | stops {s t : Shell τ} (hinput : s.remaining ≠ "")
      (hline : runLine e (typed s) (taken e.host.ahead prompt s) = .ok false t) :
      Loops e prompt s (.ok () t)
  | goesOn {s t : Shell τ} {r : EStateM.Result Failure (Shell τ) Unit} (hinput : s.remaining ≠ "")
      (hline : runLine e (typed s) (taken e.host.ahead prompt s) = .ok true t)
      (h : Loops e prompt t r) : Loops e prompt s r
  | chokes {s t : Shell τ} {f : Failure} (hinput : s.remaining ≠ "")
      (hline : runLine e (typed s) (taken e.host.ahead prompt s) = .error f t)
      (hstall : ¬LineStalls e (typed s) (taken e.host.ahead prompt s))
      (h : LineChokes e (typed s) (taken e.host.ahead prompt s)) : Loops e prompt s (.error f t)
  | stalls {s t : Shell τ} (hinput : s.remaining ≠ "")
      (hline : runLine e (typed s) (taken e.host.ahead prompt s) = .error .endless t)
      (h : LineStalls e (typed s) (taken e.host.ahead prompt s)) :
      Loops e prompt s (.error .endless t)

theorem wiring_leave (ahead : String → Nat) (rest : String) (s : Shell τ) :
    (leave ahead rest s).wiring = s.wiring := by
  unfold leave
  cases s.behind <;> rfl

theorem tree_leave (ahead : String → Nat) (rest : String) (s : Shell τ) :
    (leave ahead rest s).world.tree = s.world.tree := by
  unfold leave
  cases s.behind <;> rfl

theorem remaining_leave (ahead : String → Nat) (rest : String) (s : Shell τ) :
    (leave ahead rest s).remaining = rest := by
  unfold leave remaining
  cases s.behind with
  | none => simp
  | some text => simp [Text.first_append_past]

theorem write_of_own (hw : s.wiring = .own) (text : String) :
    write text s = .ok () { s with output := s.output.write text } := by
  have hout : s.wiring.stdout = .output := by rw [hw]; rfl
  simp [write, Attempt.bind_apply, hout, writeTo]

theorem readLine_of_empty {ahead : String → Nat} (hw : s.wiring = .own) (h : s.remaining = "") :
    readLine ahead prompt s = .ok none { s with output := s.output.write prompt } := by
  have hleft : ({ s with output := s.output.write prompt } : Shell τ).remaining = "" := h
  rw [readLine, Attempt.bind_of_ok (write_of_own hw prompt)]
  simp [Attempt.bind_apply, hleft]

theorem readLine_of_ne {ahead : String → Nat} (hw : s.wiring = .own) (h : s.remaining ≠ "") :
    readLine ahead prompt s = .ok (some (typed s)) (taken ahead prompt s) := by
  have hleft : ({ s with output := s.output.write prompt } : Shell τ).remaining = s.remaining := rfl
  rw [readLine, Attempt.bind_of_ok (write_of_own hw prompt)]
  simp only [Attempt.bind_apply, Attempt.get_apply, hleft, String.isEmpty_iff, h, typed, taken]
  rfl

theorem loops_of_length_lt (he : e.OnlyRoams) (hw : s.wiring = .own)
    (h : s.remaining.length < n) : Loops e prompt s (loop e prompt n s) := by
  induction n generalizing s with
  | zero => exact absurd h (Nat.not_lt_zero _)
  | succ n ih =>
    by_cases hinput : s.remaining = ""
    · have hloop : loop e prompt (n + 1) s =
          .ok () { s with output := (s.output.write prompt).write "\n" } := by
        rw [loop, Attempt.bind_of_ok (readLine_of_empty hw hinput)]
        exact write_of_own (s := { s with output := s.output.write prompt }) hw "\n"
      exact hloop ▸ .ends hinput
    · have hloop : loop e prompt (n + 1) s =
          (runLine e (typed s) >>= fun b => if b then loop e prompt n else pure ())
            (taken e.host.ahead prompt s) := by
        rw [loop, Attempt.bind_of_ok (readLine_of_ne hw hinput)]
      have hrests := rests_runLine he (typed s) (taken e.host.ahead prompt s)
      have htaken : (taken e.host.ahead prompt s).wiring = .own := (wiring_leave _ _ _).trans hw
      rw [hloop]
      cases hline : runLine e (typed s) (taken e.host.ahead prompt s) with
      | error f t =>
        rw [Attempt.bind_of_error hline]
        by_cases hstall : LineStalls e (typed s) (taken e.host.ahead prompt s)
        · obtain ⟨u, hu⟩ := (runLine_endless_iff he htaken).mpr hstall
          cases hline.symm.trans hu
          exact .stalls hinput hline hstall
        · exact .chokes hinput hline hstall ((runLine_fails_iff he htaken hstall).mp ⟨f, t, hline⟩)
      | ok b t =>
        rw [Attempt.bind_of_ok hline]
        rw [Attempt.final_of_ok hline] at hrests
        cases b with
        | false => exact .stops hinput hline
        | true =>
          -- What a line reads it reads to the end, so less is left than before.
          have hshorter : t.remaining.length < n := by
            have hcut := Text.length_cutLine_lt hinput
            have hleft := hrests.input.length_remaining_le
            rw [taken, remaining_leave] at hleft
            omega
          exact .goesOn hinput hline (ih (hrests.wiring.trans htaken) hshorter)

def ended : EStateM.Result Failure (Shell Builtin) Unit → ReplEnd × Shell Builtin
  | .ok _ s => (.done, s)
  | .error f s => (.failed f, s)

def begun (world : World) (settings : Settings) (input : Source) : Shell Builtin :=
  (Shell.start world Session.builtins none (.empty settings.historyLimit) "" (.text "")).reading
    input

theorem remaining_begun (world : World) (settings : Settings) (input : Source) :
    (begun world settings input).remaining = input.text := by
  cases input with
  | memory text => exact String.append_empty
  | descriptor text => exact String.empty_append

theorem exists_run (programs : Programs) (host : Host) {world : World} {settings : Settings}
    (hload : Settings.load host.reader world = .ok settings) (input : Source) : ∃ r,
      Loops ⟨Builtin.run, programs, settings.chunkSize, host⟩ settings.prompt
        (begun world settings input) r ∧ run programs host world input = ended r := by
  refine ⟨_, loops_of_length_lt (Builtin.onlyRoams programs settings.chunkSize host) ?_
    (n := input.text.length + 1) ?_, ?_⟩
  · cases input <;> rfl
  · rw [remaining_begun]
    exact Nat.lt_succ_self _
  · simp only [run, hload]
    rfl

end Repl

end PipelineShell
