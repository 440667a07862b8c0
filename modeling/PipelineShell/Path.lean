import PipelineShell.Text.Pieces

/-! Paths as texts. -/

namespace PipelineShell.Path

/-- The directory part and the final name of a path. Slashes between the two belong to neither,
unless the directory part has nothing else. -/
def split (path : String) : String × String :=
  let back := path.toList.reverse
  let name := (back.takeWhile (· != '/')).reverse
  let head := back.dropWhile (· != '/')
  let dir := head.dropWhile (· == '/')
  (String.ofList (if dir.isEmpty then head else dir).reverse, String.ofList name)

def parent (path : String) : String :=
  (split path).1

/-- A path seen from a directory. One that begins with a slash stands for itself. -/
def join (dir path : String) : String :=
  if path.startsWith "/" then path
  else if dir.isEmpty || dir.endsWith "/" then dir ++ path
  else dir ++ "/" ++ path

/-- The names on the way along a path. A slash at the end adds an empty name, which asks for a
directory as `.` does. -/
def steps (path : String) : List String :=
  let names := Text.pieces '/' path
  names.dropLast.filter (!·.isEmpty) ++ names.getLast?.toList

/-- The path of the file or directory that the names lead to from the root. -/
def ofNames (names : List String) : String :=
  if names.isEmpty then "/" else names.foldl (fun p n => p ++ "/" ++ n) ""

end PipelineShell.Path
