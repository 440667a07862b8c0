import PipelineShell.Pipeline.Printer

/-! The pipelines that were run, numbered from one. A limit other than zero bounds how many are
kept; a number is never used again. -/

namespace PipelineShell

structure History where
  limit : Int
  kept : List (Nat × Pipeline)
  next : Nat
deriving DecidableEq

namespace History

def empty (limit : Int) : History := ⟨limit, [], 1⟩

def trim (limit : Int) (l : List (Nat × Pipeline)) : List (Nat × Pipeline) :=
  if limit = 0 then l else l.drop (l.length - limit.toNat)

def add (h : History) (p : Pipeline) : History :=
  ⟨h.limit, trim h.limit (h.kept ++ [(h.next, p)]), h.next + 1⟩

def addIf (h : History) (p : Option Pipeline) : History :=
  match p with
  | some p => h.add p
  | none => h

/-- Nothing is kept, but the numbers go on. -/
def clear (h : History) : History :=
  { h with kept := [] }

def size (h : History) : Nat :=
  h.kept.length

/-- The last `count` entries with their numbers, or all of them if the count is not positive. -/
def entries (h : History) (count : Int) : List (Nat × String) :=
  let chosen := if 0 < count then h.kept.drop (h.kept.length - count.toNat) else h.kept
  chosen.map fun (n, p) => (n, p.render)

end History

end PipelineShell
