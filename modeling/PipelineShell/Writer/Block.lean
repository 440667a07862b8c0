import PipelineShell.FileTree.Change

/-! Files that are open for writing. Bytes are held until a block of them has come together; what a
reader of the file sees in the meantime is what has been let out. -/

namespace PipelineShell

/-- An open file. One that appends writes at the end, whatever others have written since; another
writes where it stands. -/
structure BlockWriter where
  place : Location
  append : Bool
  offset : Nat
  held : ByteArray
deriving DecidableEq

/-- The bytes with others over those that begin at an offset. A gap is filled with zeros. -/
def overlay (old : ByteArray) (offset : Nat) (new : ByteArray) : ByteArray :=
  if offset = old.size then old ++ new
  else
    old.extract 0 offset ++ ⟨Array.replicate (offset - old.size) 0⟩ ++ new ++
      old.extract (offset + new.size) old.size

namespace BlockWriter

def start (place : Location) (append : Bool) : BlockWriter :=
  ⟨place, append, 0, .empty⟩

/-- An attempt on an open file and the tree that it is in. -/
abbrev Writing (α : Type) := Attempt Fault (BlockWriter × FileTree) α

def put (bytes : ByteArray) : Writing Unit := do
  let (w, t) ← get
  if bytes.isEmpty then pure ()
  else if t.get? w.place = some (.device .full) then throw (.refused .noSpace)
  else if w.append then set (w, t.revise w.place (· ++ bytes))
  else
    set ({ w with offset := w.offset + bytes.size },
      t.revise w.place fun old => overlay old w.offset bytes)

def hold (bytes : ByteArray) : Writing Unit :=
  modify fun (w, t) => ({ w with held := bytes }, t)

def flush : Writing Unit := do
  let (w, _) ← get
  put w.held
  hold .empty

/-- Writes bytes: they are held if they fit, and let out with those before them if they are more
than a block. -/
def write (bytes : ByteArray) : Writing Unit := do
  let (w, t) ← get
  if w.held.size + bytes.size ≤ t.blockSize ∧ bytes.size < t.blockSize then hold (w.held ++ bytes)
  else
    flush
    if t.blockSize < bytes.size then put bytes else hold bytes

end BlockWriter

end PipelineShell
