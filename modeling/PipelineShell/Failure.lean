import PipelineShell.Refusal

/-! What can go wrong while a pipeline runs. The shell reports its own failures and goes on. -/

namespace PipelineShell

/-- Trouble with a path or a file: the system refuses, or the path holds a character that no path
can hold. -/
inductive Fault
  | refused (r : Refusal)
  | nulByte
deriving DecidableEq

/-- Why something could not be opened or started: an answer of the system, or another reason. -/
inductive Cause
  | system (number : Int) (text : String)
  | other (text : String)
deriving DecidableEq

namespace Cause

def ofRefusal (r : Refusal) : Cause :=
  .system r.number r.text

/-- A number alone is shown where there is no text for it. -/
def reason : Cause → String
  | system number text =>
    if text.isEmpty then "[Errno " ++ toString number ++ "] " else text
  | other text => text

end Cause

/-- The failures that the shell reports by itself. -/
inductive ShellFailure
  | unknownCommand (name : String)
  | cannotExecute (name : String) (cause : Cause)
  | cannotRedirect (path : String) (cause : Cause)
deriving DecidableEq

namespace ShellFailure

def subject : ShellFailure → String
  | unknownCommand name => name
  | cannotExecute name _ => name
  | cannotRedirect path _ => path

def message : ShellFailure → String
  | unknownCommand name => name ++ ": command not found"
  | cannotExecute name cause => name ++ ": cannot execute: " ++ cause.reason
  | cannotRedirect path cause => path ++ ": cannot open for redirection: " ++ cause.reason

end ShellFailure

/-- How a step may fail. One that is endless waits for ever, and nobody sees a failure of it. -/
inductive Failure
  | shell (f : ShellFailure)
  | fault (f : Fault)
  | other (message : String)
  | endless
deriving DecidableEq

namespace Fault

def message : Fault → String
  | refused r => "[Errno " ++ toString r.number ++ "] " ++ r.text
  | nulByte => "embedded null byte"

end Fault

def Failure.message : Failure → String
  | .shell f => f.message
  | .fault f => f.message
  | .other m => m
  | .endless => ""

end PipelineShell
