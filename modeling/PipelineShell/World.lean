import PipelineShell.Environment
import PipelineShell.FileTree.Change

/-! What surrounds the shell: the files, the working directory, the environment, the clock and the
accounts of users. -/

namespace PipelineShell

structure Moment where
  year : Nat
  month : Nat
  day : Nat
  hour : Nat
  minute : Nat
  second : Nat
  microsecond : Nat
deriving DecidableEq

/-- The home of the user, and the homes of users by name. -/
structure Accounts where
  own : Option String
  homes : List (String × String)
deriving DecidableEq

/-- The seconds slept are kept, last first; time does not pass otherwise. -/
structure World where
  tree : FileTree
  dir : Location
  env : Environment
  now : Moment
  slept : List Nat
  accounts : Accounts
deriving DecidableEq

namespace World

def entry? (w : World) (path : String) : Option Entry :=
  w.tree.entry? w.dir path

def isDirectory (w : World) (path : String) : Bool :=
  w.tree.isDirectory w.dir path

def isExecutable (w : World) (path : String) : Bool :=
  w.tree.isExecutable w.dir path

def read (w : World) (path : String) : Except Fault ByteArray :=
  if FileTree.isPath path then (w.tree.read w.dir path).mapError .refused else .error .nulByte

def enter (w : World) (path : String) : Except Fault World :=
  if FileTree.isPath path then
    match w.tree.enter w.dir path with
    | .ok dir => .ok { w with dir := dir }
    | .error r => .error (.refused r)
  else .error .nulByte

def directory (w : World) : String :=
  Path.ofNames w.dir

end World

end PipelineShell
