import PipelineShell.Trie

/-! Suggestions for a word that was begun: the one candidate, the longer beginning that all
candidates share, or the candidates themselves. -/

namespace PipelineShell

/-- The candidates, and whether the only one is the whole word. -/
structure Suggestion where
  candidates : List String
  complete : Bool
deriving DecidableEq

namespace Suggestion

/-- The only candidate is a longer beginning and not yet the whole word. -/
def isPartial (s : Suggestion) : Bool :=
  !s.complete && s.candidates.length == 1

/-- The words offered for it: a whole word is followed by the separator. -/
def words (s : Suggestion) : List String :=
  if s.complete then (s.candidates.take 1).map (· ++ " ") else s.candidates

end Suggestion

/-- How many characters two texts share at the front, but for case. -/
def commonLength : List Char → List Char → Nat
  | a :: as, b :: bs =>
    if Text.foldTable.mapChar a = Text.foldTable.mapChar b then commonLength as bs + 1 else 0
  | _, _ => 0

/-- The words that can be completed, and how many candidates are listed at most. -/
structure Completion where
  words : Trie
  limit : Int
deriving DecidableEq

namespace Completion

/-- What is suggested for the text. Of the candidates in ascending order the first and the last
alone are compared: those between them share what these share. -/
def suggest (c : Completion) (text : String) : Suggestion :=
  match c.words.find text c.limit with
  | [] => ⟨[], false⟩
  | [word] => ⟨[word], true⟩
  | word :: next :: more =>
    let common := commonLength word.toList ((next :: more).getLast (by simp)).toList
    if text.length < common then ⟨[String.ofList (word.toList.take common)], false⟩
    else ⟨word :: next :: more, false⟩

end Completion

end PipelineShell
