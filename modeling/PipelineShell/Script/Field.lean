import PipelineShell.Script.Number
import PipelineShell.Text.Utf8

/-! Fields: numbers and texts written with so many places, in so much room. -/

namespace PipelineShell.Script

abbrev Bytes := List UInt8

def bytesOf (s : String) : Bytes := (Text.encode s).toList

def byte (c : Char) : UInt8 := c.toNat.toUInt8

def plainBytes (cs : List Char) : Bytes := cs.map byte

/-- The flags, width and precision of a directive. -/
structure Spec where
  left : Bool
  zero : Bool
  plus : Bool
  blank : Bool
  alternate : Bool
  width : Nat
  places : Option Nat

namespace Spec

def plain : Spec := ⟨false, false, false, false, false, 0, none⟩

def pad (s : Spec) (bs : Bytes) : Bytes :=
  let fill := List.replicate (s.width - bs.length) (byte ' ')
  if s.left then bs ++ fill else fill ++ bs

def sign (s : Spec) (negative : Bool) : String :=
  if negative then "-" else if s.plus then "+" else if s.blank then " " else ""

/-- A number in the room for it. Zeros stand after the sign and the mark of the base. -/
def number (s : Spec) (front : String) (digits : List Char) (zeros : Bool) : Bytes :=
  let front := plainBytes front.toList
  if zeros && s.zero && !s.left then
    front ++ List.replicate (s.width - front.length - digits.length) (byte '0') ++ plainBytes digits
  else s.pad (front ++ plainBytes digits)

def fillZeros (places : Nat) (digits : List Char) : List Char :=
  List.replicate (places - digits.length) '0' ++ digits

/-- A whole number in a base. A zero with no places has no digits. -/
def whole (s : Spec) (base : Nat) (upper : Bool) (sign : String) (n : Nat) : Bytes :=
  let digits := if n = 0 && s.places = some 0 then [] else Nat.toDigits base n
  let digits := fillZeros (s.places.getD 1) (if upper then digits.map Char.toUpper else digits)
  let digits :=
    if s.alternate && base = 8 && digits.head? ≠ some '0' then '0' :: digits else digits
  let mark := if s.alternate && base = 16 && n ≠ 0 then (if upper then "0X" else "0x") else ""
  s.number (sign ++ mark) digits s.places.isNone

def withPoint (s : Spec) (places : Nat) (n : Nat) : List Char :=
  let digits := fillZeros (places + 1) (Nat.toDigits 10 n)
  let (whole, fraction) := digits.splitAt (digits.length - places)
  if fraction.isEmpty && !s.alternate then whole else whole ++ '.' :: fraction

def fixed (s : Spec) (places : Nat) (q : Rat) : List Char :=
  s.withPoint places (roundedQuotient (q.num.toNat * Nat.pow 10 places) q.den)

def powerText (letter : Char) (least : Nat) (power : Int) : List Char :=
  letter :: (if power < 0 then '-' else '+') :: fillZeros least (Nat.toDigits 10 power.natAbs)

/-- The leading digits of a number with so many after the first, and the power of ten of that. -/
def leading (places : Nat) (q : Rat) : Nat × Int :=
  if q = 0 then (0, 0)
  else
    let tens (k : Int) : Rat :=
      if 0 ≤ k then mkRat (Nat.pow 10 k.toNat) 1 else mkRat 1 (Nat.pow 10 (-k).toNat)
    let size (n : Nat) : Int := (Nat.toDigits 10 n).length
    let guess := size q.num.toNat - size q.den
    let power := if q < tens guess then guess - 1 else guess
    let t := q * tens (places - power)
    let n := roundedQuotient t.num.toNat t.den
    if n < Nat.pow 10 (places + 1) then (n, power) else (n / 10, power + 1)

def scientific (s : Spec) (places : Nat) (q : Rat) : List Char :=
  let (n, power) := leading places q
  s.withPoint places n ++ powerText 'e' 2 power

def dropZeroEnd (digits : List Char) : List Char :=
  if digits.contains '.' then
    let kept := digits.reverse.dropWhile (· == '0')
    (if kept.head? = some '.' then kept.drop 1 else kept).reverse
  else digits

/-- A number with so many digits, in whichever of the two ways is shorter. -/
def general (s : Spec) (digits : Nat) (q : Rat) : List Char :=
  let digits := max digits 1
  let (n, power) := leading (digits - 1) q
  let tidy (cs : List Char) := if s.alternate then cs else dropZeroEnd cs
  if -4 ≤ power ∧ power < digits then tidy (s.fixed (digits - 1 - power).toNat q)
  else tidy (s.withPoint (digits - 1) n) ++ powerText 'e' 2 power

def hexadecimal (s : Spec) (q : Rat) : List Char :=
  let (n, power) := doubleRange.nearest q
  let power := if n = 0 then 0 else power + 52
  let digits (places n : Nat) := fillZeros (places + 1) (Nat.toDigits 16 n)
  let shown := match s.places with
    | none =>
      let all := digits 13 n
      all.take 1 ++ ((all.drop 1).reverse.dropWhile (· == '0')).reverse
    | some places =>
      if places < 13 then digits places (roundedQuotient n (Nat.pow 16 (13 - places)))
      else digits 13 n ++ List.replicate (places - 13) '0'
  let point := if 1 < shown.length || s.alternate then ['.'] else []
  shown.take 1 ++ point ++ shown.drop 1 ++ powerText 'p' 1 power

/-- How a number that may have a fraction is written. -/
inductive Style
  | fixed
  | scientific
  | general
  | hexadecimal
deriving DecidableEq

def real (s : Spec) (style : Style) (upper : Bool) (q : Quantity) : Bytes :=
  let cased (cs : List Char) := if upper then cs.map Char.toUpper else cs
  let places := s.places.getD 6
  match q with
  | .infinite negative => s.number (s.sign negative) (cased "inf".toList) false
  | .undefined negative => s.number (s.sign negative) (cased "nan".toList) false
  | .finite negative q =>
    match style with
    | .fixed => s.number (s.sign negative) (s.fixed places q) true
    | .scientific => s.number (s.sign negative) (cased (s.scientific places q)) true
    | .general => s.number (s.sign negative) (cased (s.general places q)) true
    | .hexadecimal =>
      s.number (s.sign negative ++ (if upper then "0X" else "0x")) (cased (s.hexadecimal q)) true

end Spec

end PipelineShell.Script
