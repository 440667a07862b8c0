import PipelineShell.Builtin.Probe
import PipelineShell.Builtin.Run
import PipelineShell.FileMatches
import PipelineShell.Completer
import PipelineShell.Line
import PipelineShell.Settings

/-! A session: a shell with its builtins, the programs it can run, and its settings, which are read
once when they are first asked for. -/

namespace PipelineShell

/-- The commands of a session that are no programs: the builtins, and those that try out
pipelines. -/
abbrev CommandTag := Builtin ⊕ Probe

structure Session (τ : Type) where
  shell : Shell τ
  engine : Engine τ
  settings : Option Settings

namespace Session

variable {τ : Type}

abbrev Step (τ α : Type) := Attempt SettingsFault (Session τ) α

def builtins : Registry Builtin :=
  Registry.empty.registerAll Builtin.named

/-- The builtins, and then the commands that try out pipelines. -/
def commands : Registry CommandTag :=
  (Registry.empty.registerAll (Builtin.named.map fun (n, b) => (n, .inl b))).registerAll
    (Probe.named.map fun (n, p) => (n, .inr p))

def runCommand : CommandTag → Handler CommandTag
  | .inl b => b.run
  | .inr p => p.run

/-- The settings, as they were when they were read first. -/
def readSettings : Step τ Settings := do
  let s ← get
  match s.settings with
  | some settings => pure settings
  | none =>
    match Settings.load s.engine.host.reader s.shell.world with
    | .ok settings =>
      set { s with settings := some settings }
      pure settings
    | .error fault => throw fault

/-- The engine with the chunk size that is asked for, or else the one of the settings. -/
def chooseChunkSize (asked : Int) : Step τ Unit := do
  let size ← if asked = 0 then do pure (← readSettings).chunkSize else pure asked
  modify fun s => { s with engine := { s.engine with chunkSize := size } }

/-- A session, unless its chunk size has to be read from settings that are refused. -/
def start (shell : Shell τ) (handler : τ → Handler τ) (programs : Programs) (host : Host)
    (chunkSize : Int) : Except SettingsFault (Session τ) :=
  match chooseChunkSize chunkSize ⟨shell, ⟨handler, programs, 0, host⟩, none⟩ with
  | .ok _ s => .ok s
  | .error fault _ => .error fault

/-- All names that can be completed as a command. -/
def completion : Step τ Completion := do
  let settings ← readSettings
  let shell := (← get).shell
  let words := (Trie.empty.insertAll shell.registry.names).insertAll shell.executables
  pure ⟨words, settings.maxSuggestions⟩

def suggest (text : String) : Step τ Suggestion := do
  pure ((← completion).suggest text)

/-- The matches for the text: commands where a line begins, and files elsewhere. -/
def offered (text : String) (lineStart : Bool) : Step τ (List String) := do
  let c ← completion
  if lineStart then pure (c.suggest text).words
  else pure ((← get).shell.world.fileMatches text)

def inShell {α : Type} (step : Shell.Step τ α) : Step τ (Except Failure α) :=
  (step.within (·.shell) fun shell s => { s with shell := shell }).outcome

def runLine (line : String) : Step τ (Except Failure Bool) := do
  inShell (Shell.runLine (← get).engine line)

def execute (p : Pipeline) : Step τ (Except Failure Bool) := do
  inShell (p.execute (← get).engine)

end Session

end PipelineShell
