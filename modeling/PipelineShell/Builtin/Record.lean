import PipelineShell.Calendar.Format
import PipelineShell.Shell
import PipelineShell.Text.Integer

/-! Builtins that show what the shell and its surroundings keep: the history, the environment, the
user, the time; and the one that waits. -/

namespace PipelineShell.Builtin

variable {τ : Type}

def inFivePlaces (n : Nat) : String :=
  let digits := toString n
  String.ofList (List.replicate (5 - digits.length) ' ') ++ digits

def sayEntries : List (Nat × String) → Shell.Step τ Unit
  | [] => pure ()
  | (n, text) :: rest => do
    Shell.say (inFivePlaces n ++ "  " ++ text)
    sayEntries rest

def runHistory : Handler τ := fun args => do
  let count := (args.head?.bind Text.integer?).getD 0
  sayEntries ((← get).history.entries count)
  pure Bool.true

def sayVariables : Environment → Shell.Step τ Unit
  | [] => pure ()
  | (name, value) :: rest => do
    Shell.say (name ++ "=" ++ value)
    sayVariables rest

def runEnv : Handler τ := fun args => do
  let wanted := args.map Text.fold
  sayVariables ((← get).world.env.filter fun v =>
    wanted.isEmpty || wanted.contains (Text.fold v.1))
  pure Bool.true

def filled? (env : Environment) (name : String) : Option String :=
  (env.get? name).filter (!·.isEmpty)

def runWhoami : Handler τ := fun _ => do
  let env := (← get).world.env
  match filled? env "USERNAME" <|> filled? env "USER" with
  | some name => Shell.say name
  | none => Shell.complain "whoami: cannot find name for user"
  pure Bool.true

def datePattern : String := "%a %b %d %H:%M:%S %Y"

/-- Prints the time, after the pattern that follows a plus sign. -/
def runDate : Handler τ := fun args => do
  let pattern := match args with
    | [] => datePattern
    | a :: _ =>
      match a.toList with
      | '+' :: cs => String.ofList cs
      | _ => datePattern
  Shell.say (Calendar.format (← get).world.now pattern)
  pure Bool.true

def longestSleep : Int := 3600

def runSleep : Handler τ
  | [] => do
    Shell.complain "sleep: missing operand"
    pure Bool.true
  | a :: _ => do
    let seconds := (Text.integer? a).getD (-1)
    if 0 ≤ seconds ∧ seconds ≤ longestSleep then
      modify fun s =>
        { s with world := { s.world with slept := seconds.toNat :: s.world.slept } }
    else Shell.complain ("sleep: invalid time interval '" ++ a ++ "'")
    pure Bool.true

end PipelineShell.Builtin
