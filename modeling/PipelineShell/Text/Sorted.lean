/-! Lists of texts in ascending order of code points. -/

namespace PipelineShell.Text

/-- The texts in ascending order. Equal ones stay. -/
def sorted (l : List String) : List String :=
  l.mergeSort fun a b => decide (a ≤ b)

def joined (sep : String) : List String → String
  | [] => ""
  | s :: rest => rest.foldl (fun text t => text ++ sep ++ t) s

end PipelineShell.Text
