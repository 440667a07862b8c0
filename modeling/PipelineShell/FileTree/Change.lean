import PipelineShell.Attempt
import PipelineShell.Failure
import PipelineShell.FileTree.Walk

/-! Making directories and opening files to write. -/

namespace PipelineShell.FileTree

abbrev Change (α : Type) := Attempt Fault FileTree α

def refuse {α : Type} (r : Refusal) : Change α :=
  throw (.refused r)

/-- Makes one directory. Whatever is at the path already stands in the way. -/
def makeDirectory (dir : Location) (path : String) : Change Unit := do
  if !isPath path then throw .nulByte
  let t ← get
  match t.findSteps dir path .itself ((Path.steps path).filter (!·.isEmpty)) with
  | .ok (.missing parent name) => set (t.put (parent ++ [name]) .directory)
  | .ok (.entry ..) => refuse .exists
  | .error r => refuse r

/-- The directory in which a path names something, and that name. Slashes at the end are left
out. -/
def parentAndName (path : String) : String × String :=
  let (head, tail) := Path.split path
  if tail = "" then Path.split head else (head, tail)

/-- Makes a directory after those that are missing on the way to it. One that is there already is
left as it is. The first argument bounds the number of names. -/
def makeDirectoriesIn (dir : Location) : Nat → String → Change Unit
  | 0, _ => pure ()
  | depth + 1, path => do
    let (head, tail) := parentAndName path
    let t ← get
    let isMissing := head ≠ "" ∧ tail ≠ "" ∧ t.entry? dir head = none
    if isMissing then
      (makeDirectoriesIn dir depth head).handle fun f =>
        if f = .refused .exists then some (pure ()) else none
    if isMissing ∧ tail = "." then pure ()
    else
      (makeDirectory dir path).handle fun f =>
        match f with
        | .refused r => some do
          let t ← get
          if t.isDirectory dir path then pure () else refuse r
        | .nulByte => none

def makeDirectories (dir : Location) (path : String) : Change Unit :=
  makeDirectoriesIn dir (path.length + 1) path

/-- Opens the file that the path leads to for writing, new if there is none, and gives its place.
What it holds is kept to append to it and dropped otherwise. -/
def openFile (dir : Location) (path : String) (append : Bool) : Change Location := do
  if !isPath path then throw .nulByte
  let t ← get
  match t.find dir path .made with
  | .ok (.entry _ .directory) => refuse .isDirectory
  | .ok (.entry place _) =>
    unless append do set (t.revise place fun _ => .empty)
    pure place
  | .ok (.missing parent name) =>
    set (t.put (parent ++ [name]) (.file .empty false))
    pure (parent ++ [name])
  | .error r => refuse r

/-- Opens the target of a redirection. The directories missing on the way to it are made. -/
def openTarget (dir : Location) (path : String) (append : Bool) : Change Location := do
  let parent := Path.parent path
  if parent ≠ "" then makeDirectories dir parent
  openFile dir path append

end PipelineShell.FileTree
