/-! A case mapping as a table. Most characters that change belong to runs in which every character,
or every second one, moves by the same distance; a few become several characters. -/

namespace PipelineShell.Text

/-- The characters `first`, `first + stride`, … up to `last`, each of which moves by `shift`. -/
structure CaseRun where
  first : Nat
  last : Nat
  stride : Nat
  shift : Int

/-- Both lists are in ascending order. -/
structure CaseTable where
  runs : List CaseRun
  expansions : List (Nat × List Nat)

/-- The distance by which the runs move a character. The search ends at the first run above it. -/
def CaseRun.shift? (n : Nat) : List CaseRun → Option Int
  | [] => none
  | r :: rs =>
    if n < r.first then none
    else if n ≤ r.last && (n - r.first) % r.stride == 0 then some r.shift
    else CaseRun.shift? n rs

/-- The several characters that a character becomes, if it is one of those. -/
def expansion? (n : Nat) : List (Nat × List Nat) → Option (List Nat)
  | [] => none
  | e :: es => if n < e.1 then none else if n == e.1 then some e.2 else expansion? n es

def CaseTable.mapChar (t : CaseTable) (c : Char) : List Char :=
  match expansion? c.toNat t.expansions with
  | some ns => ns.map Char.ofNat
  | none =>
    match CaseRun.shift? c.toNat t.runs with
    | some d => [Char.ofNat (c.toNat + d).toNat]
    | none => [c]

def CaseTable.map (t : CaseTable) (s : String) : String :=
  String.ofList (s.toList.flatMap t.mapChar)

end PipelineShell.Text
