import PipelineShell.Text.Utf8
import PipelineShell.Writer.Block

/-! Text files that are open for writing. Text is gathered before its bytes reach the file below. -/

namespace PipelineShell

/-- How many bytes of text are gathered. -/
def gatherSize : Nat := 8192

/-- An open text file, and the bytes of the text gathered for it. -/
structure TextWriter where
  file : BlockWriter
  gathered : ByteArray
deriving DecidableEq

namespace TextWriter

def start (place : Location) (append : Bool) : TextWriter :=
  ⟨.start place append, .empty⟩

abbrev Writing (α : Type) := Attempt Fault (TextWriter × FileTree) α

def onFile (step : BlockWriter.Writing Unit) : Writing Unit :=
  step.within (fun (w, t) => (w.file, t)) fun (f, t) (w, _) => ({ w with file := f }, t)

def gather (bytes : ByteArray) : Writing Unit :=
  modify fun (w, t) => ({ w with gathered := bytes }, t)

/-- Hands the gathered text down. It is handed down once, whatever becomes of it. -/
def handDown : Writing Unit := do
  let (w, _) ← get
  if w.gathered.isEmpty then pure ()
  else
    gather .empty
    onFile (BlockWriter.write w.gathered)

/-- Gathers a text, and hands all of it down once there is enough. A text that is too much for what
was gathered before it is not joined to that. -/
def write (text : String) : Writing Unit := do
  let bytes := Text.encode text
  if gatherSize < (← get).1.gathered.size + bytes.size then handDown
  let (w, _) ← get
  let all := w.gathered ++ bytes
  gather all
  if gatherSize ≤ all.size then handDown

def flush : Writing Unit := do
  handDown
  onFile BlockWriter.flush

/-- Closes the file: what is left is let out, and the file below lets out what it holds even if the
text could not be handed down. -/
def close : Writing Unit :=
  flush.ensure (onFile BlockWriter.flush)

end TextWriter

end PipelineShell
