import PipelineShell.Suggestion
import PipelineShell.Text.Blank
import PipelineShell.Text.Sorted

/-! Completion at the prompt. The editor of the line asks for one match after another by number;
number zero finds the matches anew. -/

namespace PipelineShell

structure Completer where
  found : List String
deriving DecidableEq

namespace Completer

def start : Completer := ⟨[]⟩

/-- The match of a number. A negative one counts from the end. -/
def pick? (l : List String) (n : Int) : Option String :=
  if 0 ≤ n then l[n.toNat]?
  else if -n ≤ l.length then l[(l.length + n).toNat]?
  else none

/-- The match of a number, and the completer that has found what number zero finds. -/
def ask (c : Completer) (fresh : List String) (n : Int) : Option String × Completer :=
  let c := if n = 0 then ⟨fresh⟩ else c
  (pick? c.found n, c)

/-- What is shown when there are several matches: a line of them, and the prompt with the line
typed so far. -/
def listing (found : List String) (prompt typed : String) : String :=
  "\n" ++ Text.joined "  " (found.map Text.trim) ++ "\n" ++ prompt ++ typed

end Completer

end PipelineShell
