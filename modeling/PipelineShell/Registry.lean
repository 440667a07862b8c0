import PipelineShell.Text.Blank
import PipelineShell.Text.Fold

/-! A table of builtins by name, in ascending order of the folded names. Case makes no
difference. -/

namespace PipelineShell

structure Registry (α : Type) where
  entries : List (String × α)
deriving DecidableEq

inductive RegistryFault
  | emptyName
  | unknown (name : String)
deriving DecidableEq

def RegistryFault.message : RegistryFault → String
  | .emptyName => "builtin name cannot be empty"
  | .unknown name => name ++ " is not a builtin"

namespace Registry

variable {α : Type}

def empty : Registry α := ⟨[]⟩

/-- The entries with a name put in its place, instead of an equal one. -/
def put (name : String) (a : α) : List (String × α) → List (String × α)
  | [] => [(name, a)]
  | e :: es =>
    if name < e.1 then (name, a) :: e :: es
    else if name = e.1 then (name, a) :: es
    else e :: put name a es

/-- The table with a name added, or with a new meaning of it. A blank name is refused. -/
def register (r : Registry α) (name : String) (a : α) : Except RegistryFault (Registry α) :=
  if Text.blank name then .error .emptyName else .ok ⟨put (Text.fold name) a r.entries⟩

/-- What the name means, if it is in the table. -/
def get? (r : Registry α) (name : String) : Option α :=
  r.entries.lookup (Text.fold name)

/-- The empty name is in no table. -/
def isBuiltin (r : Registry α) (name : String) : Bool :=
  !name.isEmpty && (r.get? name).isSome

/-- The names in the table are those of its builtins. -/
def contains (r : Registry α) (name : String) : Bool :=
  r.isBuiltin name

def resolve (r : Registry α) (name : String) : Except RegistryFault α :=
  match r.get? name with
  | some a => .ok a
  | none => .error (.unknown name)

def names (r : Registry α) : List String :=
  r.entries.map (·.1)

def size (r : Registry α) : Nat :=
  r.entries.length

end Registry

end PipelineShell
