import PipelineShell.Execution
import PipelineShell.Pipeline.Parser

/-! Running a line that was typed. -/

namespace PipelineShell.Shell

variable {τ : Type}

/-- Reports a failure of the shell's own on its errors, and goes on. -/
def report (f : Failure) : Option (Shell.Step τ Bool) :=
  match f with
  | .shell f => some do
    complain f.message
    pure true
  | _ => none

/-- Runs a line, and gives back whether the shell goes on. The line enters the history before it
runs; a blank one does nothing at all. -/
def runLine (e : Engine τ) (line : String) : Shell.Step τ Bool := do
  let p := Pipeline.parse line
  if p.isIdle then pure true
  else
    modify fun s => { s with history := s.history.add p }
    (p.execute e).handle report

end PipelineShell.Shell
