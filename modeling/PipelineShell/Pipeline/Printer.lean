import PipelineShell.Pipeline

/-! Writing a pipeline as a line that is read as the same pipeline. -/

namespace PipelineShell

/-- The words of a command. One that runs nothing keeps its redirections alone. -/
def Command.words (c : Command) : List String :=
  if c.isEmpty then c.redirection.words
  else (c.name :: c.args).map quote ++ c.redirection.words

def Command.render (c : Command) : String :=
  Text.joined " " c.words

def Pipeline.render (p : Pipeline) : String :=
  Text.joined " | " (p.stages.map Command.render)

end PipelineShell
