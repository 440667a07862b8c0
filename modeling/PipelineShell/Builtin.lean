import PipelineShell.Registry

/-! The builtins of the shell, and the names under which they stand. -/

namespace PipelineShell

inductive Builtin
  | cat
  | cd
  | clear
  | date
  | echo
  | env
  | exit
  | history
  | pwd
  | sleep
  | true
  | type
  | which
  | whoami
deriving DecidableEq

namespace Builtin

/-- Two builtins have a second name. How a command ended is not kept, so that the name is all that
tells `false` from `true`. -/
def named : List (String × Builtin) := [
  ("cat", cat), ("cd", cd), ("clear", clear), ("cls", clear), ("date", date), ("echo", echo),
  ("env", env), ("exit", exit), ("false", true), ("history", history), ("pwd", pwd),
  ("sleep", sleep), ("true", true), ("type", type), ("which", which), ("whoami", whoami)]

end Builtin

namespace Registry

variable {α : Type}

/-- The table with several names added. Blank ones are left out. -/
def registerAll (r : Registry α) (l : List (String × α)) : Registry α :=
  l.foldl (fun r e => match r.register e.1 e.2 with | .ok r => r | .error _ => r) r

end Registry

end PipelineShell
