import PipelineShell.Pipeline
import PipelineShell.Pipeline.Segment
import PipelineShell.Word.Lexer

/-! Reading a line as a pipeline. Every line is one. -/

namespace PipelineShell

/-- The command that the words and the redirection of a segment make. -/
def Command.ofWords : List String × Redirection → Command
  | ([], r) => ⟨"", [], r⟩
  | (name :: args, r) => ⟨name, args, r⟩

def Command.parse (segment : String) : Command :=
  Command.ofWords (Redirection.collect (Word.ofSegment segment) Redirection.none)

def Pipeline.parse (line : String) : Pipeline :=
  match segmentsFrom .plain [] line.toList with
  | [] => ⟨Command.parse "", []⟩
  | s :: rest =>
    ⟨Command.parse (String.ofList s), rest.map fun t => Command.parse (String.ofList t)⟩

end PipelineShell
