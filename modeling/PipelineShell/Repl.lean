import PipelineShell.Session
import PipelineShell.Text.Lines

/-! The loop that reads lines and runs them. Lines and commands share one input. -/

namespace PipelineShell

/-- How the loop ended: in order, before it began, or by a failure that is not the shell's own. -/
inductive ReplEnd
  | done
  | refused (fault : SettingsFault)
  | failed (f : Failure)
deriving DecidableEq

namespace Repl

variable {τ : Type}

/-- The shell with what comes after a line. In a file it reads ahead, but only where the line is not
read already. -/
def leave (ahead : String → Nat) (rest : String) (s : Shell τ) : Shell τ :=
  match s.behind with
  | none => { s with input := rest }
  | some text =>
    let n := if text.length ≤ rest.length then rest.length - text.length else ahead rest
    { s with input := Text.first n rest, behind := some (Text.past n rest) }

/-- Reads a line without its end, after a prompt. There is none at the end of the input. -/
def readLine (ahead : String → Nat) (prompt : String) : Shell.Step τ (Option String) := do
  Shell.write prompt
  let s ← get
  if s.remaining.isEmpty then pure none
  else
    let (line, rest) := Text.cutLine s.remaining
    set (leave ahead rest s)
    pure (some (if line.endsWith "\n" then (line.dropEnd 1).toString else line))

/-- Reads and runs lines until one stops the shell or there are no more, after which the line with
the prompt ends. The first argument bounds the number of lines. -/
def loop (e : Engine τ) (prompt : String) : Nat → Shell.Step τ Unit
  | 0 => pure ()
  | lines + 1 => do
    match ← readLine e.host.ahead prompt with
    | none => Shell.write "\n"
    | some line =>
      if ← Shell.runLine e line then loop e prompt lines

def run (programs : Programs) (host : Host) (world : World) (input : Source) :
    ReplEnd × Shell Builtin :=
  let shell (limit : Int) :=
    (Shell.start world Session.builtins none (.empty limit) "" (.text "")).reading input
  match Settings.load host.reader world with
  | .error fault => (.refused fault, shell 0)
  | .ok settings =>
    let e : Engine Builtin := ⟨Builtin.run, programs, settings.chunkSize, host⟩
    match loop e settings.prompt (input.text.length + 1) (shell settings.historyLimit) with
    | .ok _ s => (.done, s)
    | .error f s => (.failed f, s)

end Repl

end PipelineShell
