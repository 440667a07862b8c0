import PipelineShell.Settings.File
import PipelineShell.Settings.Value
import PipelineShell.Text.Lines

/-! A reader of settings: they come from the environment, and from a file in the working directory
where the environment is silent. -/

namespace PipelineShell.Settings

/-- A character in lower case, where that is a plain letter. -/
def lowerChar (c : Char) : Char :=
  if c = '\u212a' then 'k' else c.toLower

/-- Case makes no difference in the names of settings. -/
def lowerName (name : String) : String :=
  String.ofList (name.toList.map lowerChar)

/-- What every name of a setting begins with where it stands among other variables. -/
def namespaceText : String := "seashell_"

def valueOf {α : Type} (values : List (String × α)) (name : String) : Option α :=
  (values.reverse.find? fun v => lowerName v.1 = namespaceText ++ name).map (·.2)

def fileName : String := ".env"

/-- The text of a file. A mark of the byte order in front is no part of it. -/
def fileText (bytes : ByteArray) : Except SettingsFault String :=
  match Text.decode? bytes with
  | .ok text =>
    .ok <| Text.unifyLines <|
      if text.startsWith "\ufeff" then (text.drop 1).toString else text
  | .error f => .error (.encoding f)

def textsOf (w : World) : Except SettingsFault (String → Option String) := do
  let file ← match w.entry? fileName with
    | some (.file bytes _) => do pure (fileValues w.env (← fileText bytes))
    | _ => pure []
  pure fun name => valueOf w.env name <|> (valueOf file name).join

def Reader.standard : Reader := ⟨textsOf, integerOf⟩

end PipelineShell.Settings
