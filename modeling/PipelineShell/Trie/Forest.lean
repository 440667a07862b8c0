/-! A forest of characters in which each way down spells a word. Siblings stand in ascending order,
so that a walk meets the words in ascending order too. -/

namespace PipelineShell

/-- A character, whether a word ends there, what may follow it, and its later siblings. -/
inductive Forest
  | empty
  | node (c : Char) (word : Bool) (down next : Forest)
deriving DecidableEq

namespace Forest

def chain : List Char → Forest
  | [] => .empty
  | c :: cs => .node c cs.isEmpty (chain cs) .empty

def insert : Forest → List Char → Forest
  | f, [] => f
  | .empty, cs => chain cs
  | .node d word down next, c :: cs =>
    if c < d then .node c cs.isEmpty (chain cs) (.node d word down next)
    else if c = d then .node d (word || cs.isEmpty) (down.insert cs) next
    else .node d word down (next.insert (c :: cs))

/-- Where a text leads: whether a word ends there, and what may follow. -/
def find? : Forest → List Char → Option (Bool × Forest)
  | f, [] => some (false, f)
  | .empty, _ => none
  | .node d word down next, c :: cs =>
    if c = d then (if cs.isEmpty then some (word, down) else down.find? cs)
    else next.find? (c :: cs)

/-- A word ends where a text leads. -/
def isWord (f : Forest) (cs : List Char) : Bool :=
  match f.find? cs with
  | some (isWord, _) => isWord
  | none => false

/-- The first words, at most as many as the budget allows. Each is spelled after the characters
`before`, which stand last first. -/
def gather (budget : Nat) (before : List Char) : Forest → List (List Char)
  | .empty => []
  | .node c word down next =>
    if budget = 0 then [] else
      let here := if word then [(c :: before).reverse] else []
      let below := gather (budget - here.length) (c :: before) down
      here ++ below ++ gather (budget - here.length - below.length) before next

end Forest

end PipelineShell
