import PipelineShell.Text.Utf8

/-! Where the shell's own output goes: to a text kept in memory, or as bytes to a file that
processes can write to as well. Either has room for all that is written. -/

namespace PipelineShell

inductive Console
  | text (written : String)
  | raw (written : ByteArray)
deriving DecidableEq

namespace Console

def isRaw : Console → Bool
  | text _ => false
  | raw _ => true

def write (s : String) : Console → Console
  | text written => text (written ++ s)
  | raw written => raw (written ++ Text.encode s)

/-- What a process writes, piece by piece. A text in memory takes it as text, whatever bytes it
is. -/
def receive (pieces : List ByteArray) : Console → Console
  | text written => text (written ++ Text.decodePieces pieces)
  | raw written => raw (pieces.foldl (· ++ ·) written)

end Console

end PipelineShell
