/-! The reasons for which the system refuses to open, enter, make or run something. -/

namespace PipelineShell

inductive Refusal
  | noEntry
  | argumentsTooLong
  | badFormat
  | denied
  | exists
  | notDirectory
  | isDirectory
  | busy
  | noSpace
  | nameTooLong
  | linkLoop
deriving DecidableEq

namespace Refusal

def number : Refusal → Int
  | noEntry => 2
  | argumentsTooLong => 7
  | badFormat => 8
  | denied => 13
  | «exists» => 17
  | notDirectory => 20
  | isDirectory => 21
  | busy => 26
  | noSpace => 28
  | nameTooLong => 36
  | linkLoop => 40

def text : Refusal → String
  | noEntry => "No such file or directory"
  | argumentsTooLong => "Argument list too long"
  | badFormat => "Exec format error"
  | denied => "Permission denied"
  | «exists» => "File exists"
  | notDirectory => "Not a directory"
  | isDirectory => "Is a directory"
  | busy => "Text file busy"
  | noSpace => "No space left on device"
  | nameTooLong => "File name too long"
  | linkLoop => "Too many levels of symbolic links"

end Refusal

end PipelineShell
