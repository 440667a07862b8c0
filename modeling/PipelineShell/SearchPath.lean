import PipelineShell.World

/-! The search path: a list of directories, between colons, in which commands are looked for. -/

namespace PipelineShell.SearchPath

/-- The directories of a search path, each at its first place. An empty one is left out. -/
def directories (path : String) : List String :=
  ((Text.pieces ':' path).filter (!·.isEmpty)).eraseDups

/-- The file that a command name runs. A name with a slash is the path of that file itself. -/
def find (w : World) (path : String) (name : String) : Option String :=
  if name.isEmpty then none
  else if name.toList.contains '/' then (if w.isExecutable name then some name else none)
  else ((directories path).map (Path.join · name)).find? w.isExecutable

/-- The names in a directory that can be run and were not seen before. A link that leads nowhere is
passed over; one that cannot be followed ends the search of the directory. -/
def scan (w : World) (dir : String) (place : Location) (seen : List String) :
    List String → List String
  | [] => []
  | name :: names =>
    let path := Path.join dir name
    if name ∈ seen then scan w dir place seen names
    else
      match w.tree.get? (place ++ [name]), w.tree.reach w.dir path with
      | some (.link _), .error .noEntry => scan w dir place seen names
      | some (.link _), .error _ => []
      | _, _ =>
        if w.isExecutable path then name :: scan w dir place seen names
        else scan w dir place seen names

def executablesIn (w : World) (seen : List String) : List String → List String
  | [] => seen
  | dir :: dirs =>
    match w.tree.enter w.dir dir with
    | .ok place => executablesIn w (seen ++ scan w dir place seen (w.tree.names place)) dirs
    | .error _ => executablesIn w seen dirs

/-- The names of all commands that the search path offers, each once. -/
def executables (w : World) (path : String) : List String :=
  executablesIn w [] (directories path)

end PipelineShell.SearchPath
