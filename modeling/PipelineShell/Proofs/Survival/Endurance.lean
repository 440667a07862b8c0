import PipelineShell.FileTree.Setup
import PipelineShell.Proofs.Survival.Clean

/-! What a shell can count on while lines run, with the failures that it cannot outlive. All texts
are sequences of characters, so lines hold no bytes that could not be decoded. -/

namespace PipelineShell

open Shell

/-- A shell outlives every line but those that choke or stall. -/
structure Endures (e : Engine Builtin) (s : Shell Builtin) : Prop where
  /-- A line gives back whether the shell goes on, unless it chokes or stalls. -/
  returns : ∀ line, (∃ b t, runLine e line s = .ok b t) ↔ ¬LineChokes e line s ∧ ¬LineStalls e line s
  /-- A line that stalls never ends. -/
  waits : ∀ line, (∃ t, runLine e line s = .error .endless t) ↔ LineStalls e line s
  /-- A line that chokes ends in a failure, unless it stalls at its end. -/
  fails : ∀ line, (∃ f t, runLine e line s = .error f t ∧ f ≠ .endless) ↔
    LineChokes e line s ∧ ¬LineStalls e line s
  /-- There are two failures that a line can end in. -/
  faults : ∀ line f t, runLine e line s = .error f t → f = .fault .nulByte ∨ Full f ∨ f = .endless
  /-- None of that comes of a line without a NUL, in a tree without the full device. -/
  safe : ∀ line, '\x00' ∉ line.toList → s.world.tree.Roomy → ∃ b t, runLine e line s = .ok b t
  /-- The shell reports its own failures and goes on. -/
  reports : ∀ line g t, (Pipeline.parse line).isIdle = false →
    (Pipeline.parse line).execute e (s.noted line) = .error (.shell g) t →
      runLine e line s = .ok true { t with errors := t.errors.write (g.message ++ "\n") }
  /-- The executor reports the other failures of a builtin, wherever its errors go. -/
  complains : ∀ tag c u u' v w f b, openTargets c.redirection u = .ok () u' →
    e.handler tag c.args { u' with wiring := rewire c.redirection u'.wiring } = .error f v →
      f.Escapes → invoke e tag c u = .ok b w → b = true ∧ ∃ t t',
        complain (c.name ++ ": " ++ f.message) v = .ok () t ∧ flush t.wiring.stdout t = .ok () t' ∧
        closeTargets c.redirection { t' with wiring := u'.wiring } = .ok () w
  /-- However a line ends, the next one finds the shell wired to its own streams. -/
  wired : ∀ line, ((runLine e line).final s).wiring = .own
  /-- The loop leaves off at the end of the input, or at a line that stops the shell, that chokes or
  that stalls. -/
  loops : ∀ prompt n, s.remaining.length < n → Repl.Loops e prompt s (Repl.loop e prompt n s)
  /-- So does the shell as a whole, which ends in order but for the last two cases. -/
  runs : ∀ settings, Settings.load e.host.reader s.world = .ok settings → ∀ input, ∃ r,
    Repl.Loops ⟨Builtin.run, e.programs, settings.chunkSize, e.host⟩ settings.prompt
      (Repl.begun s.world settings input) r ∧
    Repl.run e.programs e.host s.world input = Repl.ended r
  /-- It always ends in order on an input without a NUL, in a tree without the full device. -/
  done : ∀ settings, Settings.load e.host.reader s.world = .ok settings → ∀ input,
    '\x00' ∉ input.text.toList → s.world.tree.Roomy →
      ∃ t, Repl.run e.programs e.host s.world input = (.done, t)
  /-- The streams of the shell have room. Were its output one without, a line of one builtin, with
  no redirection, would fail unreported on all that the builtin has written there. -/
  roomless : ∀ line c tag atOnce (u : Shell Builtin), (Pipeline.parse line).stages = [c] →
    c.isEmpty = false → c.redirection = .none → u.registry.isBuiltin c.name = true →
      u.registry.resolve c.name = .ok tag → u.wiring.stdout = .full atOnce →
      (((e.handler tag c.args).handle (reportAs c.name)).final
        { u.noted line with given := "", captured := "" }).waiting ≠ "" →
      ∃ t, runLine e line u = .error (.fault (.refused .noSpace)) t

def bareWorld : World :=
  ⟨.system, ["tmp"], [], ⟨2024, 1, 1, 0, 0, 0, 0⟩, [], ⟨none, []⟩⟩

end PipelineShell
