import PipelineShell.Host

/-! Moving bytes from one process to the next: a relay reads at most so many bytes at a time and
hands them on until a read gives nothing. -/

namespace PipelineShell

/-- What may be wrong with one end of a pipe. -/
inductive PipeFault
  | readerGone
  | numbered (number : Int)
  | unnumbered
  | foreign
deriving DecidableEq

/-- The numbers under which the system says that nobody reads: `EPIPE`, `ESHUTDOWN`, and `EINVAL`,
which some systems give instead. -/
def PipeFault.broken : PipeFault → Bool
  | readerGone => true
  | numbered n => n = 32 || n = 108 || n = 22
  | unnumbered | foreign => false

/-- What is left of a fault when a pipe is closed: that nobody reads is no trouble then. -/
def PipeFault.onClose (f : PipeFault) : Option PipeFault :=
  if f.broken then none else some f

namespace Relay

/-- How many bytes a read of unstated size gives at most. -/
def defaultRead : Nat := 8192

/-- The sizes that a read can be asked for at all. -/
def IsSize (size : Int) : Prop :=
  -Int.pow 2 63 ≤ size ∧ size < Int.pow 2 63

instance (size : Int) : Decidable (IsSize size) :=
  inferInstanceAs (Decidable (_ ∧ _))

/-- How many bytes one read of a pipe gives at most, which are no more than the pipe holds. A
negative size leaves it unstated; nothing comes of a read that the host has no memory for. -/
def readSize (host : Host) (size : Int) : Nat :=
  if ¬IsSize size then 0
  else if size < 0 then min defaultRead host.pipeRoom
  else if host.grants size.toNat then min size.toNat host.pipeRoom
  else 0

/-- The reads that a piece gives from an index on, after those that are done, last first. Each gives
as much as it may. -/
def readsFrom (size : Nat) (piece : ByteArray) (i : Nat) (done : List ByteArray) : List ByteArray :=
  if _h : size = 0 ∨ piece.size ≤ i then done
  else readsFrom size piece (i + size) (piece.extract i (i + size) :: done)
termination_by piece.size - i
decreasing_by omega

/-- What arrives at the other end of what was written piece by piece. -/
def copy (host : Host) (size : Int) (pieces : List ByteArray) : List ByteArray :=
  pieces.flatMap fun piece => (readsFrom (readSize host size) piece 0 []).reverse

def joined (pieces : List ByteArray) : ByteArray :=
  pieces.foldl (· ++ ·) .empty

end Relay

end PipelineShell
