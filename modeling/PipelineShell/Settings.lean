import PipelineShell.Text.Utf8
import PipelineShell.World

/-! The settings of the shell: what each of them may be, and what it is where nothing is given. How
a value is found in the surroundings, and which texts are integers, is up to a reader. -/

namespace PipelineShell

inductive LogLevel
  | debug
  | info
  | warning
  | error
deriving DecidableEq

inductive LogFormat
  | json
  | console
deriving DecidableEq

structure Settings where
  prompt : String
  logLevel : LogLevel
  logFormat : LogFormat
  maxSuggestions : Int
  historyLimit : Int
  chunkSize : Int
deriving DecidableEq

inductive Settings.ValueFault
  | integer
  | longInteger
  | choice
deriving DecidableEq

/-- Why there are no settings: the file holds no text, or the values under some names were refused.
-/
inductive SettingsFault
  | encoding (f : Text.DecodeFault)
  | values (faults : List (String × Settings.ValueFault))
deriving DecidableEq

/-- A reader of settings: the text that is given in a world for the setting of a name, and the
integers that texts stand for. -/
structure Settings.Reader where
  given : World → Except SettingsFault (String → Option String)
  integer : String → Except Settings.ValueFault Int

namespace Settings

def default : Settings := ⟨"$ ", .warning, .console, 100, 1000, 65536⟩

def levels : List (String × LogLevel) :=
  [("DEBUG", .debug), ("INFO", .info), ("WARNING", .warning), ("ERROR", .error)]

def formats : List (String × LogFormat) :=
  [("json", .json), ("console", .console)]

def chosen {α : Type} (choices : List (String × α)) (value : String) : Except ValueFault α :=
  match choices.lookup value with
  | some a => .ok a
  | none => .error .choice

def stores (integer : String → Except ValueFault Int) :
    List (String × (String → Settings → Except ValueFault Settings)) := [
  ("chunk_size", fun v s => (integer v).map fun n => { s with chunkSize := n }),
  ("history_limit", fun v s => (integer v).map fun n => { s with historyLimit := n }),
  ("log_format", fun v s => (chosen formats v).map fun f => { s with logFormat := f }),
  ("log_level", fun v s => (chosen levels v).map fun l => { s with logLevel := l }),
  ("max_suggestions", fun v s => (integer v).map fun n => { s with maxSuggestions := n }),
  ("prompt", fun v s => .ok { s with prompt := v })]

/-- The settings with the texts that are given, or all texts that were refused, by name. -/
def ofTexts (integer : String → Except ValueFault Int) (given : String → Option String) :
    Except (List (String × ValueFault)) Settings :=
  let (settings, faults) := (stores integer).foldl
    (fun (settings, faults) (name, store) =>
      match given name with
      | none => (settings, faults)
      | some value =>
        match store value settings with
        | .ok settings => (settings, faults)
        | .error f => (settings, faults ++ [(name, f)]))
    (default, [])
  if faults.isEmpty then .ok settings else .error faults

def load (r : Reader) (w : World) : Except SettingsFault Settings := do
  (ofTexts r.integer (← r.given w)).mapError .values

end Settings

end PipelineShell
