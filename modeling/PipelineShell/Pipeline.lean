import PipelineShell.Redirection

/-! Commands and pipelines. A pipeline has at least one stage; a stage without a name runs
nothing. -/

namespace PipelineShell

structure Command where
  name : String
  args : List String
  redirection : Redirection
deriving DecidableEq

def Command.isEmpty (c : Command) : Bool :=
  c.name.isEmpty

structure Pipeline where
  first : Command
  rest : List Command
deriving DecidableEq

namespace Pipeline

def stages (p : Pipeline) : List Command :=
  p.first :: p.rest

def ofStages? : List Command → Option Pipeline
  | [] => none
  | c :: cs => some ⟨c, cs⟩

def isSingle (p : Pipeline) : Bool :=
  p.rest.isEmpty

def size (p : Pipeline) : Nat :=
  p.stages.length

/-- A single stage that runs nothing: the line is a blank one, at most with redirections. -/
def isIdle (p : Pipeline) : Bool :=
  p.isSingle && p.first.isEmpty

end Pipeline

end PipelineShell
