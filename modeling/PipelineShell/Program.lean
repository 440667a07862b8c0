import PipelineShell.World
import PipelineShell.Redirection

/-! Programs: files that run as processes of their own. A process is a function of what it is
launched with: processes run one after the other, each to its end before the next stage begins, and
what they do to files is left out. How their steps may be mixed is told for the relays alone, in a
theory of its own. -/

namespace PipelineShell

/-- What a process is launched with. The last two say that an output has no room for anything. -/
structure Launch where
  path : String
  args : List String
  env : Environment
  dir : Location
  tree : FileTree
  input : ByteArray
  outputFull : Bool
  errorsFull : Bool

abbrev Output := List (Stream × ByteArray)

/-- What launching gives: all that the process writes, piece by piece, or the reason why there is
none. -/
abbrev Programs := Launch → Except Refusal Output

namespace Output

def pieces (o : Output) (s : Stream) : List ByteArray :=
  o.filterMap fun c => if c.1 = s then some c.2 else none

end Output

end PipelineShell
