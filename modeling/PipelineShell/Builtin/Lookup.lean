import PipelineShell.Shell

/-! Builtins that say what a name stands for. -/

namespace PipelineShell.Builtin

variable {τ : Type}

inductive Meaning
  | builtin
  | program (path : String)
  | nothing
deriving DecidableEq

/-- A builtin comes before a file of the same name. -/
def meaning (s : Shell τ) (name : String) : Meaning :=
  if s.registry.isBuiltin name then .builtin
  else match s.locate name with
    | some path => .program path
    | none => .nothing

def runType : Handler τ
  | [] => pure Bool.true
  | name :: names => do
    match meaning (← get) name with
    | .builtin => Shell.say (name ++ " is a shell builtin")
    | .program path => Shell.say (name ++ " is " ++ path)
    | .nothing => Shell.complain (name ++ ": not found")
    runType names

def runWhich : Handler τ
  | [] => pure Bool.true
  | name :: names => do
    match meaning (← get) name with
    | .builtin => Shell.say (name ++ ": shell builtin")
    | .program path => Shell.say path
    | .nothing => Shell.complain ("which: no " ++ name ++ " in PATH")
    runWhich names

end PipelineShell.Builtin
