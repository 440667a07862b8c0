/-! The pieces of a text between the occurrences of one character. -/

namespace PipelineShell.Text

/-- The pieces between the separators, of which there is one more than separators. -/
def piecesOf (sep : Char) : List Char → List (List Char)
  | [] => [[]]
  | c :: cs =>
    if c = sep then [] :: piecesOf sep cs
    else match piecesOf sep cs with
      | [] => [[c]]
      | p :: ps => (c :: p) :: ps

def pieces (sep : Char) (s : String) : List String :=
  (piecesOf sep s.toList).map String.ofList

end PipelineShell.Text
