import PipelineShell.Trie.Forest
import PipelineShell.Text.Blank
import PipelineShell.Text.Fold

/-! A set of words that is searched by how they begin. Case makes no difference: words are kept
folded, and so is what is looked for. A word is counted when it is new. -/

namespace PipelineShell

structure Trie where
  forest : Forest
  size : Nat
deriving DecidableEq

namespace Trie

def empty : Trie := ⟨.empty, 0⟩

def insert (t : Trie) (word : String) : Trie :=
  if Text.blank word then t
  else
    let cs := (Text.fold word).toList
    ⟨t.forest.insert cs, if t.forest.isWord cs then t.size else t.size + 1⟩

def insertAll (t : Trie) (words : List String) : Trie :=
  words.foldl insert t

def contains (t : Trie) (word : String) : Bool :=
  t.forest.isWord (Text.fold word).toList

/-- The first words that begin with the text, at most as many as the limit allows, in ascending
order. A blank text finds nothing, so that an empty line never lists everything. -/
def find (t : Trie) (text : String) (limit : Int) : List String :=
  if Text.blank text || limit ≤ 0 then [] else
    let start := (Text.fold text).toList
    match t.forest.find? start with
    | none => []
    | some (isWord, down) =>
      let here := if isWord then [start] else []
      (here ++ down.gather (limit.toNat - here.length) start.reverse).map String.ofList

def first? (t : Trie) (text : String) : Option String :=
  (t.find text 1).head?

end Trie

end PipelineShell
