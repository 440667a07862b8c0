import PipelineShell.World
import PipelineShell.Text.Sorted

/-! The files that a path which was begun may become. -/

namespace PipelineShell.World

/-- The files whose path begins with the text, in ascending order. A directory is shown with a slash
behind it and any other file with a space, after which the next word may follow. -/
def fileMatches (w : World) (text : String) : List String :=
  let (dir, begun) := Path.split text
  let place := if dir.isEmpty then "." else dir
  match w.tree.list w.dir place with
  | .ok names =>
    Text.sorted <| (names.filter (·.startsWith begun)).map fun name =>
      (if dir.isEmpty then name else Path.join dir name) ++
        (if w.isDirectory (Path.join place name) then "/" else " ")
  | .error _ => []

end PipelineShell.World
