import PipelineShell.FileTree

/-! Following a path. Links are followed on the way, and at the end if that is asked for. -/

namespace PipelineShell

/-- Where a path leads: to an entry, or to a directory without an entry of that name. -/
inductive Found
  | entry (place : Location) (e : Entry)
  | missing (dir : Location) (name : String)
deriving DecidableEq

/-- What is wanted at the end of a path: a link itself, what the link leads to, or a file that is
made if there is none. -/
inductive Ending
  | itself
  | followed
  | made
deriving DecidableEq

namespace FileTree

def longestName : Nat := 255

/-- A path has fewer bytes than this. -/
def pathLimit : Nat := 4096

def linkLimit : Nat := 40

/-- The way from a directory along the names. The first argument goes on after a link. A file is
never made under a name with a slash behind it. -/
def walkFrom (t : FileTree) (onLink : Location → List String → Except Refusal Found)
    (ending : Ending) (here : Location) : List String → Except Refusal Found
  | [] => .ok (.entry here .directory)
  | name :: rest =>
    if name = "" ∨ name = "." then walkFrom t onLink ending here rest
    else if name = ".." then walkFrom t onLink ending here.dropLast rest
    else if ending = .made ∧ rest ≠ [] ∧ rest.all (· = "") then .error .isDirectory
    else if longestName < name.utf8ByteSize then .error .nameTooLong
    else
      match t.get? (here ++ [name]) with
      | none => if rest = [] then .ok (.missing here name) else .error .noEntry
      | some .directory => walkFrom t onLink ending (here ++ [name]) rest
      | some (.link target) =>
        if rest = [] ∧ ending = .itself then .ok (.entry (here ++ [name]) (.link target))
        else onLink (if target.startsWith "/" then [] else here) (Path.steps target ++ rest)
      | some e =>
        if rest = [] then .ok (.entry (here ++ [name]) e) else .error .notDirectory

/-- The way along the names, over at most so many links. -/
def walk (t : FileTree) (ending : Ending) : Nat → Location → List String → Except Refusal Found
  | 0 => t.walkFrom (fun _ _ => .error .linkLoop) ending
  | links + 1 => t.walkFrom (t.walk ending links) ending

def findSteps (t : FileTree) (dir : Location) (path : String) (ending : Ending)
    (steps : List String) : Except Refusal Found :=
  if path = "" then .error .noEntry
  else if pathLimit ≤ path.utf8ByteSize then .error .nameTooLong
  else t.walk ending linkLimit (if path.startsWith "/" then [] else dir) steps

def find (t : FileTree) (dir : Location) (path : String) (ending : Ending) :
    Except Refusal Found :=
  t.findSteps dir path ending (Path.steps path)

/-- The place that a path leads to and what is there. What is missing is refused. -/
def reach (t : FileTree) (dir : Location) (path : String) : Except Refusal (Location × Entry) :=
  match t.find dir path .followed with
  | .ok (.entry place e) => .ok (place, e)
  | .ok (.missing ..) => .error .noEntry
  | .error r => .error r

/-- A character that no path can hold. -/
def isPath (path : String) : Bool :=
  !path.toList.contains '\x00'

/-- What a path leads to, if it can be a path and leads anywhere. -/
def entry? (t : FileTree) (dir : Location) (path : String) : Option Entry :=
  if isPath path then (t.reach dir path).toOption.map (·.2) else none

def isDirectory (t : FileTree) (dir : Location) (path : String) : Bool :=
  t.entry? dir path = some .directory

/-- The path leads to a file that may be run. -/
def isExecutable (t : FileTree) (dir : Location) (path : String) : Bool :=
  match t.entry? dir path with
  | some (.file _ executable) => executable
  | some (.tool _) => true
  | _ => false

def list (t : FileTree) (dir : Location) (path : String) : Except Refusal (List String) :=
  match t.reach dir path with
  | .ok (place, .directory) => .ok (t.names place)
  | .ok _ => .error .notDirectory
  | .error r => .error r

def enter (t : FileTree) (dir : Location) (path : String) : Except Refusal Location :=
  match t.reach dir path with
  | .ok (place, .directory) => .ok place
  | .ok _ => .error .notDirectory
  | .error r => .error r

def read (t : FileTree) (dir : Location) (path : String) : Except Refusal ByteArray :=
  match t.reach dir path with
  | .ok (_, .directory) => .error .isDirectory
  | .ok (place, _) => .ok (t.content place)
  | .error r => .error r

end FileTree

end PipelineShell
