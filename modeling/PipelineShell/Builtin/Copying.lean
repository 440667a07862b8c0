import PipelineShell.Builtin.Directory
import PipelineShell.Text.Lines

/-! Builtins that write what they are given. -/

namespace PipelineShell.Builtin

variable {τ : Type}

def runEcho : Handler τ := fun args => do
  Shell.say (Text.joined " " args)
  pure Bool.true

def runClear : Handler τ := fun _ => do
  Shell.write "\x1b[H\x1b[2J"
  pure Bool.true

/-- Writes the text of a file. Lines end in line feeds, whatever they end in there. -/
def copyFile (path : String) : Shell.Step τ Unit := do
  match (← get).world.read path with
  | .ok bytes => Shell.write (Text.unifyLines (Text.decode bytes))
  | .error f => throw (.fault f)

/-- Writes the texts of files. One that cannot be read or written is named, and the others
follow. -/
def copyFiles : List String → Shell.Step τ Unit
  | [] => pure ()
  | path :: paths => do
    (copyFile path).handle fun f =>
      match f with
      | .fault f => some (complainAbout "cat" path f)
      | _ => none
    copyFiles paths

def runCat : Handler τ := fun args => do
  if args.isEmpty then Shell.write (← Shell.readAll) else copyFiles args
  pure Bool.true

end PipelineShell.Builtin
