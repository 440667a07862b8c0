/-! Numbers in the arguments of the system's tools: how they are read, and the nearest numbers of so
many binary digits. -/

namespace PipelineShell.Script

def isSpace (c : Char) : Bool :=
  c = ' ' || ('\t' ≤ c && c ≤ '\r')

def digitIn? (base : Nat) (c : Char) : Option Nat :=
  let v := if c.isDigit then c.toNat - 48
    else if 'a' ≤ c ∧ c ≤ 'f' then c.toNat - 87
    else if 'A' ≤ c ∧ c ≤ 'F' then c.toNat - 55
    else base
  if v < base then some v else none

def digitsAt (base : Nat) : List Char → List Nat × List Char
  | [] => ([], [])
  | c :: cs =>
    match digitIn? base c with
    | some d =>
      let (ds, rest) := digitsAt base cs
      (d :: ds, rest)
    | none => ([], c :: cs)

def ofDigits (base : Nat) (ds : List Nat) : Nat :=
  ds.foldl (fun n d => base * n + d) 0

def readSign : List Char → Bool × List Char
  | '-' :: cs => (true, cs)
  | '+' :: cs => (false, cs)
  | cs => (false, cs)

/-- What follows the mark of the base sixteen, if a digit does. -/
def afterHexMark? : List Char → Option (List Char)
  | '0' :: x :: rest =>
    let digits := match rest with
      | '.' :: more => more
      | _ => rest
    if (x = 'x' ∨ x = 'X') ∧ (digits.head?.bind (digitIn? 16)).isSome then some rest else none
  | _ => none

/-- A whole number without a sign, whose first characters say its base. Nothing stands for no
number. -/
def readWhole (cs : List Char) : Option (Nat × List Char) :=
  let (base, digits) := match afterHexMark? cs with
    | some rest => if rest.head? = some '.' then (8, cs) else (16, rest)
    | none => (if cs.head? = some '0' then 8 else 10, cs)
  match digitsAt base digits with
  | ([], _) => none
  | (ds, rest) => some (ofDigits base ds, rest)

inductive Quantity
  | finite (negative : Bool) (size : Rat)
  | infinite (negative : Bool)
  | undefined (negative : Bool)
deriving DecidableEq

/-- A power of ten beyond which no tool tells numbers from infinity, or below one from zero. -/
def farthest : Nat := 20000

/-- A whole number times a power. One far out is put where it is only known to be far out. -/
def scaled (n base : Nat) (power : Int) : Rat :=
  let digits : Int := (Nat.toDigits base n).length + power
  if n = 0 then 0
  else if digits < -farthest then mkRat 1 (base.pow farthest)
  else if farthest < digits then mkRat (base.pow farthest) 1
  else if 0 ≤ power then mkRat (n * base.pow power.toNat) 1
  else mkRat n (base.pow (-power).toNat)

/-- A power after one of two letters, and what follows. There is none without a digit. -/
def readPower (small large : Char) (cs : List Char) : Int × List Char :=
  match cs with
  | c :: more =>
    if c = small ∨ c = large then
      let (negative, more) := readSign more
      match digitsAt 10 more with
      | ([], _) => (0, cs)
      | (ds, rest) => (if negative then -(ofDigits 10 ds : Int) else ofDigits 10 ds, rest)
    else (0, cs)
  | [] => (0, [])

/-- Digits with a point among them: the whole number that they make, how many stand after the point,
and what follows. -/
def readDigits (base : Nat) (cs : List Char) : Option (Nat × Nat × List Char) :=
  let (whole, rest) := digitsAt base cs
  let (fraction, rest) := match rest with
    | '.' :: more => digitsAt base more
    | _ => ([], rest)
  if whole.isEmpty && fraction.isEmpty then none
  else some (ofDigits base (whole ++ fraction), fraction.length, rest)

/-- What follows a word at the front, whatever its case. -/
def dropWord? (word : String) (cs : List Char) : Option (List Char) :=
  if (cs.take word.length).map Char.toLower = word.toList then some (cs.drop word.length) else none

/-- What may stand in brackets after the word for an undefined number. -/
def dropTag (cs : List Char) : List Char :=
  match cs with
  | '(' :: more =>
    match more.dropWhile fun c => c.isAlphanum || c = '_' with
    | ')' :: rest => rest
    | _ => cs
  | _ => cs

/-- A quantity without its sign, and what follows it. -/
def readSize (negative : Bool) (cs : List Char) : Option (Quantity × List Char) :=
  match afterHexMark? cs with
  | some digits =>
    (readDigits 16 digits).map fun (n, places, rest) =>
      let (power, rest) := readPower 'p' 'P' rest
      (.finite negative (scaled n 2 (power - 4 * places)), rest)
  | none =>
    match readDigits 10 cs with
    | some (n, places, rest) =>
      let (power, rest) := readPower 'e' 'E' rest
      some (.finite negative (scaled n 10 (power - places)), rest)
    | none =>
      match dropWord? "infinity" cs <|> dropWord? "inf" cs with
      | some rest => some (.infinite negative, rest)
      | none => (dropWord? "nan" cs).map fun rest => (.undefined negative, dropTag rest)

/-- The quantity at the front of a text after white space, and what follows it. -/
def readQuantity (cs : List Char) : Option (Quantity × List Char) :=
  let (negative, cs) := readSign (cs.dropWhile isSpace)
  readSize negative cs

/-- The whole number nearest to a quotient; of two the even one. -/
def roundedQuotient (num den : Nat) : Nat :=
  let q := num / den
  let twice := 2 * (num % den)
  if den < twice ∨ twice = den ∧ q % 2 = 1 then q + 1 else q

/-- A range of binary numbers: their digits, the least power of two, and the first power that is too
large. -/
structure BinaryRange where
  bits : Nat
  least : Int
  beyond : Nat

def doubleRange : BinaryRange := ⟨53, -1074, 1024⟩

def longRange : BinaryRange := ⟨64, -16445, 16384⟩

def timesPower (q : Rat) (power : Int) : Rat :=
  if 0 ≤ power then q * mkRat (Nat.pow 2 power.toNat) 1
  else q * mkRat 1 (Nat.pow 2 (-power).toNat)

/-- The nearest number of a range that is not negative, as a whole number and a power of two. -/
def BinaryRange.nearest (r : BinaryRange) (q : Rat) : Nat × Int :=
  let guess : Int := (q.num.toNat.log2 : Int) - q.den.log2 - r.bits
  let power := if timesPower q (-guess) < mkRat (Nat.pow 2 r.bits) 1 then guess else guess + 1
  let power := max power r.least
  let t := timesPower q (-power)
  (roundedQuotient t.num.toNat t.den, power)

/-- A quantity as a number of a range, and whether it lies outside: it is too large, or so small
that digits are lost. -/
def BinaryRange.round (r : BinaryRange) : Quantity → Quantity × Bool
  | .finite negative q =>
    let (n, power) := r.nearest q
    let near := timesPower (mkRat n 1) power
    if timesPower 1 r.beyond ≤ near then (.infinite negative, true)
    else (.finite negative near, power = r.least && n < Nat.pow 2 (r.bits - 1) && near != q)
  | q => (q, false)

end PipelineShell.Script
