import PipelineShell.Settings
import PipelineShell.Text.Integer

/-! The integers that settings take. They may be padded with zeros, and may have a fraction that is
zero; only plain digits count. -/

namespace PipelineShell.Settings

/-- The rest of a number after zeros, with the last of them kept where no other digit follows. Low
lines among the zeros go with them. The second argument is the character before. -/
def dropZerosFrom : List Char → Char → Option (List Char)
  | [], last => some [last]
  | c :: cs, last =>
    if c = '0' ∨ c = '_' then dropZerosFrom cs c
    else if '1' ≤ c ∧ c ≤ '9' ∨ c = '-' then some (c :: cs)
    else if c = '.' then some (last :: c :: cs)
    else none

def dropZeros : List Char → Option (List Char)
  | [] => none
  | c :: cs =>
    if c = '0' then dropZerosFrom cs c
    else if '1' ≤ c ∧ c ≤ '9' ∨ c = '-' then some (c :: cs)
    else none

/-- A number without a plus sign, and without zeros in front or after a minus sign. -/
def dropPadding : List Char → Option (List Char)
  | '+' :: '-' :: _ => none
  | '+' :: cs => dropZeros cs
  | '-' :: cs => (dropZeros cs).map ('-' :: ·)
  | cs => dropZeros cs

def dropFraction (cs : List Char) : List Char :=
  match cs.dropWhile (· != '.') with
  | '.' :: '0' :: fraction =>
    if fraction.all (· == '0') then cs.takeWhile (· != '.') else cs
  | _ => cs

def hasDoubleLine : List Char → Bool
  | '_' :: '_' :: _ => true
  | _ :: cs => hasDoubleLine cs
  | [] => false

/-- A number without the single low lines inside it. -/
def dropLines (cs : List Char) : List Char :=
  if cs.head? = some '_' ∨ cs.getLast? = some '_' ∨ hasDoubleLine cs then cs
  else cs.filter (· != '_')

/-- The value of plain digits without zeros in front. -/
def plainNat (cs : List Char) : Except ValueFault Nat :=
  if cs.head? = some '0' ∧ cs.length ≠ 1 then .error .integer
  else if Text.maxDigits < (cs.takeWhile Char.isDigit).length then .error .longInteger
  else if cs.isEmpty ∨ !cs.all Char.isDigit then .error .integer
  else .ok (Text.natOfDigits (cs.map fun c => c.toNat - 48))

def plainInt : List Char → Except ValueFault Int
  | '-' :: cs => (plainNat cs).map fun n => -(n : Int)
  | cs => (plainNat cs).map fun n => (n : Int)

def integerOf (value : String) : Except ValueFault Int :=
  match dropPadding (Text.dropMargins value.toList) with
  | some cs => plainInt (dropLines (dropFraction cs))
  | none => .error .integer

end PipelineShell.Settings
