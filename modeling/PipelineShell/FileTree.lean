import PipelineShell.Path
import PipelineShell.Refusal
import PipelineShell.Text.Utf8

/-! The tree of files. It is kept flat, as a list of places and what is there: a change to one place
leaves the others as they are. Who writes to its files holds a block of bytes at most. -/

namespace PipelineShell

/-- The names on the way to a place, from the root. -/
abbrev Location := List String

/-- Files that keep nothing: one takes all that is written, the other has no room for any of it. -/
inductive Device
  | null
  | full
deriving DecidableEq

inductive Entry
  | directory
  | file (content : ByteArray) (executable : Bool)
  | link (target : String)
  | device (d : Device)
  | tool (name : String)
deriving DecidableEq

structure FileTree where
  entries : List (Location × Entry)
  blockSize : Nat
deriving DecidableEq

namespace FileTree

/-- What is at a place. The root is always a directory. -/
def get? (t : FileTree) (l : Location) : Option Entry :=
  if l.isEmpty then some .directory else t.entries.lookup l

def putIn (l : Location) (e : Entry) : List (Location × Entry) → List (Location × Entry)
  | [] => [(l, e)]
  | p :: ps => if p.1 = l then (l, e) :: ps else p :: putIn l e ps

def put (t : FileTree) (l : Location) (e : Entry) : FileTree :=
  { t with entries := putIn l e t.entries }

/-- The names in a directory, in the order in which they were made. -/
def names (t : FileTree) (l : Location) : List String :=
  t.entries.filterMap fun p => if p.1.dropLast = l && !p.1.isEmpty then p.1.getLast? else none

/-- The bytes of the file at a place. A device gives none. -/
def content (t : FileTree) (l : Location) : ByteArray :=
  match t.get? l with
  | some (.file bytes _) => bytes
  | _ => .empty

/-- The tree with new bytes in the file at a place, which keeps its other properties. -/
def revise (t : FileTree) (l : Location) (change : ByteArray → ByteArray) : FileTree :=
  match t.get? l with
  | some (.file bytes executable) => t.put l (.file (change bytes) executable)
  | _ => t

end FileTree

end PipelineShell
