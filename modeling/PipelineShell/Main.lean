import PipelineShell.FileTree.Setup
import PipelineShell.Repl
import PipelineShell.Script.Programs
import PipelineShell.Settings.Standard

/-! A shell at the command line. It reads lines and runs them in a file tree of its own, which holds
the system's files at first and is gone when the shell ends. -/

namespace PipelineShell.CommandLine

/-- The user's directory is the working directory, and no time has passed. -/
def world : World :=
  ⟨.system, ["root"], [("HOME", "/root"), ("PATH", "/usr/bin:/bin")], ⟨1970, 1, 1, 0, 0, 0, 0⟩, [],
    ⟨some "/root", [("root", "/root")]⟩⟩

/-- Reads may ask for 32 GiB, and pipes hold 64 KiB. The input is a text in memory. -/
def host : Host :=
  { Host.ample with grants := fun n => n < Nat.pow 2 35, reader := .standard }

/-- What the end of the shell adds to its errors. -/
def complaint : ReplEnd → String
  | .done => ""
  | .refused (.encoding f) => Settings.fileName ++ ": " ++ f.message ++ "\n"
  | .refused (.values faults) =>
    String.join (faults.map fun (name, _) => name ++ ": cannot be read\n")
  | .failed f => f.message ++ "\n"

def bytesOf : Console → ByteArray
  | .text s => Text.encode s
  | .raw b => b

partial def readAll (input : IO.FS.Stream) (done : ByteArray) : IO ByteArray := do
  let piece ← input.read 65536
  if piece.isEmpty then pure done else readAll input (done ++ piece)

/-- Runs a shell on the whole input. It is a success unless the shell failed. -/
def run : IO UInt32 := do
  let input ← readAll (← IO.getStdin) .empty
  let (ending, shell) := Repl.run Script.programs host world (.memory (Text.decode input))
  let stdout ← IO.getStdout
  let stderr ← IO.getStderr
  stdout.write (bytesOf shell.output)
  stdout.flush
  stderr.write (bytesOf shell.errors)
  stderr.putStr (complaint ending)
  pure (if ending = .done then 0 else 1)

end PipelineShell.CommandLine

def main : IO UInt32 :=
  PipelineShell.CommandLine.run
