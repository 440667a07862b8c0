/-! Environment variables, in the order in which they were set. -/

namespace PipelineShell

abbrev Environment := List (String × String)

namespace Environment

def get? (e : Environment) (name : String) : Option String :=
  List.lookup name e

def unset (e : Environment) (name : String) : Environment :=
  e.filter (·.1 ≠ name)

/-- The environment with a variable set. One that has a value already keeps its place. -/
def set (e : Environment) (name value : String) : Environment :=
  if (e.get? name).isSome then e.map fun v => if v.1 = name then (name, value) else v
  else e ++ [(name, value)]

end Environment

end PipelineShell
