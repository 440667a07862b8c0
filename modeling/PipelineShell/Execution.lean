import PipelineShell.Job
import PipelineShell.Pipeline
import PipelineShell.Text.Lines

/-! Running a pipeline, stage by stage from the left. A builtin runs at once with its output kept; a
process is started with pipes. A stage without a name lets pass what comes to it. -/

namespace PipelineShell

/-- What stages run with: the meaning of the builtins' tags, the programs, how many bytes a relay
moves at a time, and the host of the shell. -/
structure Engine (τ : Type) where
  handler : τ → Handler τ
  programs : Programs
  chunkSize : Int
  host : Host

namespace Shell

variable {τ : Type}

/-- How a failure inside a builtin is reported: by the shell if it is one of the shell's own, and
else by a line under the name of the builtin. A builtin waits for no process. -/
def reportAs (name : String) : Failure → Option (Shell.Step τ Bool)
  | .shell _ => none
  | f => some do
    complain (name ++ ": " ++ f.message)
    pure true

/-- Runs a builtin with what it writes to. Its output is let out at the end, however it ends. -/
def invoke (e : Engine τ) (tag : τ) (c : Command) : Shell.Step τ Bool :=
  redirected c.redirection <|
    ((e.handler tag c.args).handle (reportAs c.name)).ensure do flush (← get).wiring.stdout

def stageWiring (hasInput last : Bool) (w : Wiring) : Wiring :=
  { w with
    stdin := if hasInput then .given else w.stdin
    stdout := w.stageOutput last }

end Shell

namespace Job

variable {τ : Type}

def drain : Job.Step τ (Option String) := do
  match (← get).pending with
  | .nothing => pure none
  | .text s => pure (some s)
  | .stream pipe pieces =>
    claim pipe .drain
    closePipe pipe
    pure (some (Text.decode (Relay.joined pieces)))

/-- Writes pieces to an open file, until one finds no room. That is the trouble of who writes. What
comes of it is the number of bytes after that piece, if there is one. -/
def putAll (file : Nat) : List ByteArray → Job.Step τ (Option Nat)
  | [] => pure none
  | piece :: pieces => do
    match ← (onFile file (BlockWriter.put piece)).outcome with
    | .ok _ => putAll file pieces
    | .error _ => pure (some (Relay.joined pieces).size)

/-- Copies what comes out of a pipe to an open file. Where there is no room the relay ends without
closing the pipe. -/
def relayToFile (e : Engine τ) (file pipe : Nat) (pieces : List ByteArray) : Job.Step τ Unit := do
  match ← putAll file (Relay.copy e.host e.chunkSize pieces) with
  | none => closePipe pipe
  | some left => forsake left pipe

/-- A stage without a name. Its target takes what would have gone to the next stage. -/
def runEmpty (e : Engine τ) (r : Redirection) : Job.Step τ Unit := do
  discard (openDestination r.stderr)
  match ← openDestination r.stdout with
  | none => pure ()
  | some file =>
    match (← get).pending with
    | .nothing => pure ()
    | .text s => onFile file (BlockWriter.write (Text.encode s))
    | .stream pipe pieces =>
      claim pipe .relay
      startHelper
      relayToFile e file pipe pieces
    setPending (.text "")

def runBuiltin (e : Engine τ) (tag : τ) (c : Command) (last : Bool) : Job.Step τ Unit := do
  let given ← drain
  modify fun j =>
    { j with shell := { j.shell with given := given.getD "", captured := "" } }
  let goesOn ← inShell (Shell.bound (Shell.stageWiring given.isSome last) (Shell.invoke e tag c))
  modify fun j =>
    { j with
      pending := if last then .nothing else .text j.shell.captured
      keepGoing := j.keepGoing && goesOn }

/-- The input of a process: the shell's own if no stage before has said otherwise. Where that is a
file, the process does not get what the shell has read ahead in it. -/
def inputFor (e : Engine τ) (j : Job τ) : ByteArray :=
  match j.pending with
  | .nothing => Text.encode (j.shell.behind.getD j.shell.input)
  | .text s => Text.encode s
  | .stream _ pieces => Relay.joined (Relay.copy e.host e.chunkSize pieces)

/-- The process gets its input through a pipe, and not from the file that is the shell's own. -/
def feeds (j : Job τ) : Bool :=
  j.pending ≠ .nothing || j.shell.behind.isNone

/-- The shell when a process was given its input, of which it takes so much for itself where that is
a file. -/
def drawn (s : Shell τ) (amount : Nat) : Shell τ :=
  match s.behind with
  | none => { s with input := "" }
  | some text => { s with behind := some (Text.past amount text) }

/-- A helper works on a pipe and then closes it. -/
def serve : Option Nat → Job.Step τ Unit
  | none => pure ()
  | some pipe => do startHelper; closePipe pipe

def feed (input : Option Nat) (amount : Nat) : Job.Step τ Unit := do
  match (← get).pending with
  | .nothing =>
    modify fun j => { j with shell := drawn j.shell amount }
    serve input
  | .text _ =>
    setPending .nothing
    serve input
  | .stream pipe _ =>
    claim pipe .relay
    serve input
    closePipe pipe

/-- Writes what a process wrote to its redirected streams, in the order in which it did. -/
def writeOutput (out err : Option Nat) : Output → Job.Step τ Unit
  | [] => pure ()
  | (s, bytes) :: rest => do
    match s, out, err with
    | .stdout, some file, _ => discard (putAll file [bytes])
    | .stderr, _, some file => discard (putAll file [bytes])
    | _, _, _ => pure ()
    writeOutput out err rest

/-- What a process wrote comes to the shell's own output or errors: through a pipe and a helper, or
without, where the process can write there itself. -/
def receive (s : Stream) (pipe : Option Nat) (pieces : List ByteArray) : Job.Step τ Unit := do
  modify fun j =>
    { j with
      shell := match j.shell.wiring.outlet s with
        | .output => { j.shell with output := j.shell.output.receive pieces }
        | .errors => { j.shell with errors := j.shell.errors.receive pieces }
        | _ => j.shell }
  serve pipe

/-- The shell's ends of the pipes of a process. -/
structure Ends where
  input : Option Nat
  output : Option Nat
  errors : Option Nat

/-- A process starts. There is a pipe for each stream of it that goes neither to a file nor to where
the process can read or write itself. -/
def spawn (last : Bool) (out err : Option Nat) : Job.Step τ Ends := do
  let s := (← get).shell
  let input ← openPipeIf (← get).feeds
  let output ← openPipeIf (out.isNone && !s.inherits (s.wiring.stageOutput last))
  let errors ← openPipeIf (err.isNone && !s.inherits s.wiring.stderr)
  let process ← newNumber
  let pipes := input.toList ++ output.toList ++ errors.toList
  modify fun j => { j with processes := ⟨process, pipes⟩ :: j.processes }
  note (.spawned process)
  pure ⟨input, output, errors⟩

/-- What a process wrote to its output goes to the shell's own, or else to the stage that is next.
-/
def handOn (last : Bool) (out pipe : Option Nat) (pieces : List ByteArray) : Job.Step τ Unit := do
  if last then
    if out.isNone then receive .stdout pipe pieces
    setPending .nothing
  else match pipe with
    | none => setPending (.text "")
    | some n => offer n pieces

/-- All that comes of a process that starts. It takes so much of an input that is a file. -/
def attend (last : Bool) (out err : Option Nat) (amount : Nat) (output : Output) :
    Job.Step τ Unit := do
  let ends ← spawn last out err
  feed ends.input amount
  writeOutput out err output
  if err.isNone then receive .stderr ends.errors (output.pieces .stderr)
  handOn last out ends.output (output.pieces .stdout)

/-- What the process of a stage is launched with, once its targets are open. -/
def launchFor (e : Engine τ) (c : Command) (last : Bool) (path : String) (out err : Option Nat)
    (j : Job τ) : Launch :=
  let s := j.shell
  ⟨path, c.name :: c.args, s.world.env, s.world.dir, s.world.tree, j.inputFor e,
    j.isFull out (s.wiring.stageOutput last), j.isFull err s.wiring.stderr⟩

/-- A stage that is a process. It is looked up first; then its targets are opened, the one of its
output before the one of its errors; then it starts. -/
def runProcess (e : Engine τ) (c : Command) (last : Bool) : Job.Step τ Unit := do
  match (← get).shell.locate c.name with
  | none => throw (.shell (.unknownCommand c.name))
  | some path =>
    let out ← openDestination c.redirection.stdout
    let err ← openDestination c.redirection.stderr
    if !(c.name :: c.args).all FileTree.isPath then throw (.fault .nulByte)
    let j ← get
    let launch := j.launchFor e c last path out err
    match if j.isBusy path then .error .busy else e.programs launch with
    | .error r => throw (.shell (.cannotExecute c.name (.ofRefusal r)))
    | .ok output => attend last out err (e.host.draws launch) output

def runStage (e : Engine τ) (c : Command) (last : Bool) : Job.Step τ Unit := do
  if c.isEmpty then runEmpty e c.redirection
  else
    let registry := (← get).shell.registry
    if registry.isBuiltin c.name then
      match registry.resolve c.name with
      | .ok tag => runBuiltin e tag c last
      | .error f => throw (.other f.message)
    else runProcess e c last

def runStages (e : Engine τ) : List Command → Job.Step τ Unit
  | [] => pure ()
  | c :: cs => do
    runStage e c cs.isEmpty
    runStages e cs

/-- Writes what the last stage let pass to the shell's output. A helper that fails at it is not
heard of. -/
def emit : Job.Step τ Unit := do
  let o := (← get).shell.wiring.stdout
  match (← get).pending with
  | .nothing => pure ()
  | .text s =>
    inShell do
      Shell.writeTo o s
      Shell.flush o
    setPending .nothing
  | .stream pipe pieces =>
    claim pipe .pump
    startHelper
    discard (inShell (Shell.writeTo o (Text.decodePieces pieces))).outcome
    closePipe pipe

def run (e : Engine τ) (p : Pipeline) : Job.Step τ Unit :=
  (do runStages e p.stages; emit : Job.Step τ Unit).ensure (finish e.host.pipeRoom)

end Job

/-- Runs a pipeline and gives back whether the shell goes on. A single stage without a name does
nothing, and opens no target either. -/
def Pipeline.execute {τ : Type} (e : Engine τ) (p : Pipeline) : Shell.Step τ Bool := fun s =>
  if p.isIdle then .ok true s
  else
    match Job.run e p (Job.start s) with
    | .ok _ j => .ok j.keepGoing j.shell
    | .error f j => .error f j.shell

end PipelineShell
