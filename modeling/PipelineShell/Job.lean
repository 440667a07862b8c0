import PipelineShell.Program
import PipelineShell.Relay
import PipelineShell.Shell

/-! A job: one run of a pipeline, with the processes, helpers, pipes and files that it owns. What
happens to each of these is noted, so that one can say what is left when the job ends. The helpers
of a job do their work when they are started, and in the order in which they are. -/

namespace PipelineShell

/-- The output of the stages so far that no stage has taken: none yet, a text that is complete, or a
pipe with the pieces that a process wrote to it. -/
inductive Pending
  | nothing
  | text (s : String)
  | stream (pipe : Nat) (pieces : List ByteArray)
deriving DecidableEq

/-- Who takes what comes out of a pipe that was offered. The job itself drops it when it ends. -/
inductive Consumer
  | relay
  | drain
  | pump
  | drop
deriving DecidableEq

/-- What happens to the things that a job owns. A pipe is forsaken when nobody is going to read what
is left in it, and discarded when it is closed nevertheless. -/
inductive Event
  | spawned (process : Nat)
  | waited (process : Nat)
  | started (helper : Nat)
  | joined (helper : Nat)
  | opened (file : Nat)
  | shut (file : Nat)
  | piped (pipe : Nat)
  | closed (pipe : Nat)
  | forsaken (pipe : Nat)
  | discarded (pipe : Nat)
  | offered (pipe : Nat)
  | claimed (pipe : Nat) (c : Consumer)
deriving DecidableEq

structure Process where
  number : Nat
  pipes : List Nat
deriving DecidableEq

/-- The state of a job. Its pipes are those in use; others are open though nobody reads them any
more, with so many bytes left unread. Everything stands with the latest first. -/
structure Job (τ : Type) where
  shell : Shell τ
  pending : Pending
  keepGoing : Bool
  processes : List Process
  helpers : List Nat
  pipes : List Nat
  unread : List (Nat × Nat)
  files : List (Nat × BlockWriter)
  events : List Event
  fresh : Nat

abbrev Job.Step (τ α : Type) := Attempt Failure (Job τ) α

namespace Job

variable {τ α : Type}

def start (s : Shell τ) : Job τ :=
  ⟨s, .nothing, true, [], [], [], [], [], [], 0⟩

def inShell (step : Shell.Step τ α) : Job.Step τ α :=
  step.within (·.shell) fun s j => { j with shell := s }

def note (e : Event) : Job.Step τ Unit :=
  modify fun j => { j with events := e :: j.events }

/-- A number that nothing else of the job has. -/
def newNumber : Job.Step τ Nat := do
  let j ← get
  set { j with fresh := j.fresh + 1 }
  pure j.fresh

def setPending (p : Pending) : Job.Step τ Unit :=
  modify fun j => { j with pending := p }

def startHelper : Job.Step τ Unit := do
  let n ← newNumber
  modify fun j => { j with helpers := n :: j.helpers }
  note (.started n)

def openPipe : Job.Step τ Nat := do
  let n ← newNumber
  modify fun j => { j with pipes := n :: j.pipes }
  note (.piped n)
  pure n

def openPipeIf (needed : Bool) : Job.Step τ (Option Nat) := do
  if needed then pure (some (← openPipe)) else pure none

def closePipe (pipe : Nat) : Job.Step τ Unit := do
  modify fun j => { j with pipes := j.pipes.filter (· ≠ pipe) }
  note (.closed pipe)

/-- Leaves a pipe open, with so many bytes that nobody is going to read. -/
def forsake (left pipe : Nat) : Job.Step τ Unit := do
  modify fun j => { j with pipes := j.pipes.filter (· ≠ pipe), unread := (pipe, left) :: j.unread }
  note (.forsaken pipe)

/-- Offers what comes out of a pipe to the stage that is next. -/
def offer (pipe : Nat) (pieces : List ByteArray) : Job.Step τ Unit := do
  note (.offered pipe)
  setPending (.stream pipe pieces)

/-- Hands a pipe to the one that takes what comes out of it. -/
def claim (pipe : Nat) (c : Consumer) : Job.Step τ Unit := do
  note (.claimed pipe c)
  setPending .nothing

/-- Opens the target of a redirection until the job ends. -/
def openFile (path : String) (append : Bool) : Job.Step τ Nat := do
  let place ← inShell (Shell.openTarget path append)
  let n ← newNumber
  modify fun j => { j with files := (n, .start place append) :: j.files }
  note (.opened n)
  pure n

def openDestination (d : Destination) : Job.Step τ (Option Nat) :=
  match d.target with
  | some path => do pure (some (← openFile path d.append))
  | none => pure none

def file? (j : Job τ) (n : Nat) : Option BlockWriter :=
  j.files.lookup n

def setTree (j : Job τ) (t : FileTree) : Job τ :=
  { j with shell := { j.shell with world := { j.shell.world with tree := t } } }

def setFile (j : Job τ) (n : Nat) (w : BlockWriter) (t : FileTree) : Job τ :=
  { j.setTree t with files := j.files.map fun f => if f.1 = n then (n, w) else f }

def onFile (n : Nat) (step : BlockWriter.Writing Unit) : Job.Step τ Unit := fun j =>
  match j.file? n with
  | none => .ok () j
  | some w =>
    match step (w, j.shell.world.tree) with
    | .ok _ (w, t) => .ok () (j.setFile n w t)
    | .error f (w, t) => .error (.fault f) (j.setFile n w t)

/-- Nothing that is written to this file finds room, or to the outlet where there is no file. -/
def isFull (j : Job τ) (file : Option Nat) (o : Outlet) : Bool :=
  match file with
  | some n => (j.file? n).any fun w => j.shell.world.tree.get? w.place = some (.device .full)
  | none => o.isFull

/-- A file that the job has open for writing. It cannot be run meanwhile. -/
def isBusy (j : Job τ) (path : String) : Bool :=
  match j.shell.world.tree.reach j.shell.world.dir path with
  | .ok (place, _) => j.files.any fun f => f.2.place = place
  | .error _ => false

def dropPending : Job.Step τ Unit := do
  match (← get).pending with
  | .stream pipe _ =>
    claim pipe .drop
    closePipe pipe
  | _ => pure ()

/-- A process does not end while a pipe of it is in use: its input has no end yet, or what it writes
is still to be read. Nor does it end if more is left unread than there is room for in a pipe. -/
def blocks (room : Nat) (j : Job τ) (p : Process) : Bool :=
  p.pipes.any fun n => n ∈ j.pipes || j.unread.any fun u => u.1 = n && room < u.2

def waitAll (room : Nat) : List Process → Job.Step τ Unit
  | [] => modify fun j => { j with processes := [] }
  | p :: ps => do
    if (← get).blocks room p then throw .endless
    note (.waited p.number)
    waitAll room ps

def joinAll : List Nat → Job.Step τ Unit
  | [] => modify fun j => { j with helpers := [] }
  | h :: hs => do note (.joined h); joinAll hs

def discardAll : List (Nat × Nat) → Job.Step τ Unit
  | [] => modify fun j => { j with unread := [] }
  | u :: us => do note (.discarded u.1); discardAll us

/-- Closes the files, the last opened first. A file that cannot let out what it holds does not keep
the others from being closed. -/
def shutAll : List (Nat × BlockWriter) → Job.Step τ Unit
  | [] => modify fun j => { j with files := [] }
  | f :: fs => ((onFile f.1 BlockWriter.flush).ensure (note (.shut f.1))).ensure (shutAll fs)

/-- The end of a job, however it went: nothing that it owns is left, unless it waits for ever. -/
def finish (room : Nat) : Job.Step τ Unit := do
  dropPending
  let j ← get
  waitAll room j.processes.reverse
  joinAll j.helpers.reverse
  discardAll j.unread.reverse
  shutAll j.files

end Job

end PipelineShell
