import PipelineShell.Script.Shown

/-! Numbers from one to another by a step. -/

namespace PipelineShell.Script

/-- A bound or step, and how many places it has after the point, if that can be told. -/
structure Operand where
  value : Quantity
  places : Option Nat

def placesOf (cs : List Char) : Option Nat :=
  let cs := cs.dropWhile fun c => isSpace c || c = '+'
  let hasPoint := cs.contains '.'
  if cs.contains 'x' || cs.contains 'X' then
    if hasPoint || cs.contains 'p' then none else some 0
  else
    let isPower (c : Char) : Bool := c = 'e' || c = 'E'
    let fraction := ((cs.dropWhile (· != '.')).drop 1).takeWhile (!isPower ·)
    let (power, _) := readPower 'e' 'E' (cs.dropWhile (!isPower ·))
    some (fraction.length - power).toNat

def readOperand (arg : String) : Except String Operand :=
  match readQuantity arg.toList with
  | some (q, []) =>
    match longRange.round q with
    | (.undefined _, _) =>
      .error ("invalid 'not-a-number' argument: " ++ quotedArgument arg)
    | (.infinite _, true) =>
      .error ("invalid floating point argument: " ++ quotedArgument arg)
    | (near, _) => .ok ⟨near, placesOf arg.toList⟩
  | _ => .error ("invalid floating point argument: " ++ quotedArgument arg)

/-- The value of a quantity. One that is infinite is no bound that can be reached. -/
def Quantity.value : Quantity → Rat
  | .finite negative q => if negative then -q else q
  | _ => 0

def Quantity.ofValue (q : Rat) : Quantity :=
  .finite (q < 0) (if q < 0 then -q else q)

def counted (q : Rat) : Rat :=
  (longRange.round (.ofValue q)).1.value

/-- A way to count: where it begins, the step and the bound, and how a number is written. -/
structure Counting where
  first : Rat
  step : Rat
  last : Rat
  write : Quantity → Bytes

namespace Counting

def isBeyond (c : Counting) (q : Rat) : Bool :=
  if c.step < 0 then q < c.last else c.last < q

def number (c : Counting) (n : Nat) : Rat :=
  counted (c.first + counted (n * c.step))

/-- Whether a number beyond the bound is written like the bound, and not like the number before it.
-/
def looksLast (c : Counting) (before : Bytes) (text : Bytes) : Bool :=
  match readQuantity (text.map fun b => Char.ofNat b.toNat) with
  | some (q, []) => (longRange.round q).1.value = c.last && text != before
  | _ => false

/-- The numbers after one that is written, from an index on. The first argument bounds how many
there are. -/
def linesAfter (c : Counting) : Nat → Nat → Bytes → List Bytes
  | 0, _, _ => []
  | fuel + 1, n, before =>
    let text := c.write (.ofValue (c.number n))
    if c.isBeyond (c.number n) then (if c.looksLast before text then [text] else [])
    else text :: linesAfter c fuel (n + 1) text

/-- All numbers, the first of which may be a zero with a sign. -/
def lines (c : Counting) (first : Quantity) : List Bytes :=
  if c.isBeyond c.first then []
  else
    let text := c.write first
    text :: c.linesAfter (((c.last - c.first) / c.step).floor.toNat + 2) 1 text

end Counting

/-- The numbers that the arguments ask for, written with the places that they need, or what is wrong
with the arguments. -/
def sequence (args : List String) : Except String (List Bytes) := do
  let one : Operand := ⟨.ofValue 1, some 0⟩
  let (first, step, last) ← match args with
    | [last] => do pure (one, one, ← readOperand last)
    | [first, last] => do pure (← readOperand first, one, ← readOperand last)
    | [first, step, last] => do
      let first ← readOperand first
      let size ← readOperand step
      if size.value.value = 0 then
        throw ("invalid Zero increment value: " ++ quotedArgument step)
      pure (first, size, ← readOperand last)
    | [] => throw "missing operand"
    | _ :: _ :: _ :: extra :: _ => throw ("extra operand " ++ quotedArgument extra)
  let write : Quantity → Bytes :=
    match first.places, step.places, last.places with
    | some a, some b, some _ => { Spec.plain with places := some (max a b) }.real .fixed false
    | _, _, _ => Spec.plain.real .general false
  pure (Counting.lines ⟨first.value.value, step.value.value, last.value.value, write⟩ first.value)

end PipelineShell.Script
