import PipelineShell.FileTree.Change

/-! Filling a tree with files, and telling what has changed in it. -/

namespace PipelineShell.FileTree

/-- The part of the tree that belongs to the system. -/
def system : FileTree :=
  ⟨[(["dev"], .directory), (["dev", "null"], .device .null), (["dev", "full"], .device .full),
    (["tmp"], .directory), (["root"], .directory), (["usr"], .directory),
    (["usr", "bin"], .directory), (["bin"], .link "usr/bin")] ++
    ["sh", "dash", "cat", "head", "printf", "seq", "sort", "tr", "wc"].map fun name =>
      (["usr", "bin", name], .tool name), 4096⟩

/-- Makes a directory, link or file after the directories missing on the way to it. A file that is
there already gets the new content. -/
def install (dir : Location) (path : String) (e : Entry) : Change Unit := do
  let parent := Path.parent path
  if parent ≠ "" then makeDirectories dir parent
  match e with
  | .directory => makeDirectories dir path
  | .file content executable =>
    let place ← openFile dir path false
    modify fun t => t.put place (.file content executable)
  | e =>
    let t ← get
    match t.find dir path .itself with
    | .ok (.missing parent name) => set (t.put (parent ++ [name]) e)
    | .ok (.entry ..) => refuse .exists
    | .error r => refuse r

/-- What can be seen of an entry. -/
def looksLike : Entry → Entry → Bool
  | .file a _, .file b _ => a == b
  | a, b => a == b

/-- The entries below a directory that are new or have changed, and the names of those that are
gone, each with its path from there. -/
def difference (dir : Location) (before after : FileTree) : List (String × Option Entry) :=
  let below (t : FileTree) := t.entries.filter fun p => dir.isPrefixOf p.1 && p.1 ≠ dir
  let path (l : Location) := "/".intercalate (l.drop dir.length)
  let changed := (below after).filter fun p =>
    !((before.get? p.1).map (looksLike p.2)).getD false
  let gone := (below before).filter fun p => (after.get? p.1).isNone
  changed.map (fun p => (path p.1, some p.2)) ++ gone.map fun p => (path p.1, none)

end PipelineShell.FileTree
