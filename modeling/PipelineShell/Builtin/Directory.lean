import PipelineShell.Shell

/-! Builtins on the working directory. -/

namespace PipelineShell.Builtin

variable {τ : Type}

/-- A path that begins with a tilde begins with the home of a user instead. -/
def expandHome (w : World) (path : String) : String :=
  match path.toList with
  | '~' :: cs =>
    let name := String.ofList (cs.takeWhile (· != '/'))
    let rest := String.ofList (cs.dropWhile (· != '/'))
    let home :=
      if name.isEmpty then w.env.get? "HOME" <|> w.accounts.own else w.accounts.homes.lookup name
    match home with
    | none => path
    | some home =>
      let trimmed := String.ofList (home.toList.reverse.dropWhile (· == '/')).reverse
      if (trimmed ++ rest).isEmpty then "/" else trimmed ++ rest
  | _ => path

/-- Says why a builtin could not use a path. What no path can be is no answer of the system. -/
def complainAbout (builtin path : String) (f : Fault) : Shell.Step τ Unit :=
  match f with
  | .refused r => Shell.complain (builtin ++ ": " ++ path ++ ": " ++ r.text)
  | .nulByte => throw (.fault f)

def runPwd : Handler τ := fun _ => do
  Shell.say (← get).world.directory
  pure Bool.true

def runCd : Handler τ := fun args => do
  let target := args.head?.getD "~"
  let s ← get
  match s.world.enter (expandHome s.world target) with
  | .ok world => set { s with world := world }
  | .error f => complainAbout "cd" target f
  pure Bool.true

end PipelineShell.Builtin
