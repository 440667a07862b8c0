import PipelineShell.Console
import PipelineShell.History
import PipelineShell.Redirection
import PipelineShell.Registry
import PipelineShell.SearchPath
import PipelineShell.Writer.Text

/-! The state of the shell, and how builtins read and write. What a builtin calls its input and
output is wired to the shell's own for the time of one stage, to a text, or to a file. -/

namespace PipelineShell

/-- What a builtin reads: the shell's own input, or the text of the stage before. -/
inductive Inlet
  | own
  | given
deriving DecidableEq

/-- What a builtin writes to: the shell's own output and errors, the text kept for the stage after,
the files of the two redirections, or a stream of the shell's own that has no room. Such a stream
fails at once when it is written to, or else when it is to let out what waits. -/
inductive Outlet
  | output
  | errors
  | captured
  | file (s : Stream)
  | full (atOnce : Bool)
deriving DecidableEq

structure Wiring where
  stdin : Inlet
  stdout : Outlet
  stderr : Outlet
deriving DecidableEq

/-- There is no room in it. -/
def Outlet.isFull : Outlet → Bool
  | .full _ => true
  | _ => false

namespace Wiring

/-- The shell's own streams. They have room. -/
def own : Wiring := ⟨.own, .output, .errors⟩

def outlet (w : Wiring) : Stream → Outlet
  | .stdout => w.stdout
  | .stderr => w.stderr

/-- Where the output of a stage goes unless it is redirected. -/
def stageOutput (w : Wiring) (last : Bool) : Outlet :=
  if last then w.stdout else .captured

end Wiring

/-- The input of a shell: a text in memory, or a file that processes can read as well. -/
inductive Source
  | memory (text : String)
  | descriptor (text : String)
deriving DecidableEq

def Source.text : Source → String
  | memory text => text
  | descriptor text => text

/-- The shell. The table of builtins gives each name a tag; what the tags do stands elsewhere. Its
input has been read already, from a text in memory or as far as the shell has read ahead in a file;
what is behind that in the file, processes can read. What waits for a stream without room is kept
too. -/
structure Shell (τ : Type) where
  world : World
  registry : Registry τ
  search : Option String
  history : History
  input : String
  behind : Option String
  given : String
  output : Console
  errors : Console
  captured : String
  waiting : String
  outFile : Option TextWriter
  errFile : Option TextWriter
  wiring : Wiring
deriving DecidableEq

abbrev Shell.Step (τ α : Type) := Attempt Failure (Shell τ) α

/-- What a builtin does with its arguments. It gives back whether the shell goes on. -/
abbrev Handler (τ : Type) := List String → Shell.Step τ Bool

namespace Shell

variable {τ α : Type}

def start (world : World) (registry : Registry τ) (search : Option String) (history : History)
    (input : String) (console : Console) : Shell τ :=
  ⟨world, registry, search, history, input, none, "", console, console, "", "", none, none, .own⟩

def reading (s : Shell τ) : Source → Shell τ
  | .memory text => { s with input := text, behind := none }
  | .descriptor text => { s with input := "", behind := some text }

/-- The search path: the one that was given, or else the variable as it is now. -/
def searchPath (s : Shell τ) : String :=
  s.search.getD ((s.world.env.get? "PATH").getD "")

/-- The file that a command name runs. -/
def locate (s : Shell τ) (name : String) : Option String :=
  SearchPath.find s.world s.searchPath name

def executables (s : Shell τ) : List String :=
  SearchPath.executables s.world s.searchPath

def file (s : Shell τ) : Stream → Option TextWriter
  | .stdout => s.outFile
  | .stderr => s.errFile

def setFile (s : Shell τ) (stream : Stream) (f : Option TextWriter) : Shell τ :=
  match stream with
  | .stdout => { s with outFile := f }
  | .stderr => { s with errFile := f }

/-- A step on the file of a redirection. Nothing happens where there is none. -/
def onFile (stream : Stream) (step : TextWriter.Writing Unit) : Shell.Step τ Unit := fun s =>
  match s.file stream with
  | none => .ok () s
  | some f =>
    match step (f, s.world.tree) with
    | .ok _ (f, t) =>
      .ok () ({ s with world := { s.world with tree := t } }.setFile stream (some f))
    | .error e (f, t) =>
      .error (.fault e) ({ s with world := { s.world with tree := t } }.setFile stream (some f))

def writeTo (o : Outlet) (text : String) : Shell.Step τ Unit :=
  match o with
  | .output => modify fun s => { s with output := s.output.write text }
  | .errors => modify fun s => { s with errors := s.errors.write text }
  | .captured => modify fun s => { s with captured := s.captured ++ text }
  | .file stream => onFile stream (TextWriter.write text)
  | .full atOnce =>
    if atOnce && !text.isEmpty then throw (.fault (.refused .noSpace))
    else modify fun s => { s with waiting := s.waiting ++ text }

def flush (o : Outlet) : Shell.Step τ Unit :=
  match o with
  | .file stream => onFile stream TextWriter.flush
  | .full _ => do
    unless (← get).waiting.isEmpty do throw (.fault (.refused .noSpace))
  | _ => pure ()

/-- Processes can write to this stream themselves. -/
def inherits (s : Shell τ) : Outlet → Bool
  | .output => s.output.isRaw
  | .errors => s.errors.isRaw
  | .captured => false
  | .file _ => true
  | .full _ => true

def write (text : String) : Shell.Step τ Unit := do
  writeTo (← get).wiring.stdout text

def printLine (s : Stream) (text : String) : Shell.Step τ Unit := do
  let o := (← get).wiring.outlet s
  writeTo o text
  writeTo o "\n"

def say (text : String) : Shell.Step τ Unit := printLine .stdout text

def complain (text : String) : Shell.Step τ Unit := printLine .stderr text

def remaining (s : Shell τ) : String :=
  s.input ++ s.behind.getD ""

def readAll : Shell.Step τ String := do
  let s ← get
  match s.wiring.stdin with
  | .own =>
    set { s with input := "", behind := s.behind.map fun _ => "" }
    pure s.remaining
  | .given =>
    set { s with given := "" }
    pure s.given

/-- A step under a changed wiring, which is put back afterwards. -/
def bound (change : Wiring → Wiring) (step : Shell.Step τ α) : Shell.Step τ α := fun s =>
  match step { s with wiring := change s.wiring } with
  | .ok a s' => .ok a { s' with wiring := s.wiring }
  | .error e s' => .error e { s' with wiring := s.wiring }

/-- How a target that cannot be opened is reported. -/
def targetFailure (path : String) : Fault → Failure
  | .refused r => .shell (.cannotRedirect path (.ofRefusal r))
  | .nulByte => .fault .nulByte

def openTarget (path : String) (append : Bool) : Shell.Step τ Location := fun s =>
  match FileTree.openTarget s.world.dir path append s.world.tree with
  | .ok place t => .ok place { s with world := { s.world with tree := t } }
  | .error f t => .error (targetFailure path f) { s with world := { s.world with tree := t } }

def closeFile (stream : Stream) : Shell.Step τ Unit :=
  (onFile stream TextWriter.close).ensure (modify fun s => s.setFile stream none)

/-- A step with one stream redirected. The file is closed after it. -/
def toDestination (stream : Stream) (d : Destination) (step : Shell.Step τ α) : Shell.Step τ α :=
  match d.target with
  | none => step
  | some path => do
    let place ← openTarget path d.append
    modify fun s => s.setFile stream (some (.start place d.append))
    step.ensure (closeFile stream)

def rewire (r : Redirection) (w : Wiring) : Wiring :=
  { w with
    stdout := if r.stdout.target.isSome then .file .stdout else w.stdout
    stderr := if r.stderr.target.isSome then .file .stderr else w.stderr }

/-- A step under a redirection. Both files are open before it begins. -/
def redirected (r : Redirection) (step : Shell.Step τ α) : Shell.Step τ α :=
  toDestination .stdout r.stdout (toDestination .stderr r.stderr (bound (rewire r) step))

end Shell

end PipelineShell
