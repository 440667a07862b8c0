/-! Integers written in text: white space around them, one sign, digits of any script, and single
low lines between digits. -/

namespace PipelineShell.Text

/-- The zeros of the scripts that write numbers in base ten. The other nine digits follow each. -/
def zeros : List Nat := [
  0x30, 0x660, 0x6F0, 0x7C0, 0x966, 0x9E6, 0xA66, 0xAE6, 0xB66, 0xBE6, 0xC66, 0xCE6, 0xD66,
  0xDE6, 0xE50, 0xED0, 0xF20, 0x1040, 0x1090, 0x17E0, 0x1810, 0x1946, 0x19D0, 0x1A80, 0x1A90,
  0x1B50, 0x1BB0, 0x1C40, 0x1C50, 0xA620, 0xA8D0, 0xA900, 0xA9D0, 0xA9F0, 0xAA50, 0xABF0, 0xFF10,
  0x104A0, 0x10D30, 0x11066, 0x110F0, 0x11136, 0x111D0, 0x112F0, 0x11450, 0x114D0, 0x11650,
  0x116C0, 0x11730, 0x118E0, 0x11950, 0x11C50, 0x11D50, 0x11DA0, 0x16A60, 0x16AC0, 0x16B50,
  0x1D7CE, 0x1D7D8, 0x1D7E2, 0x1D7EC, 0x1D7F6, 0x1E140, 0x1E2F0, 0x1E950, 0x1FBF0]

def digit? (c : Char) : Option Nat :=
  (zeros.find? fun z => z ≤ c.toNat && c.toNat ≤ z + 9).map (c.toNat - ·)

/-- White space that may stand around a number. The information separators may not. -/
def isMargin (c : Char) : Bool :=
  let n := c.toNat
  (9 ≤ n && n ≤ 13) || n == 32 || (128 ≤ n &&
    (n == 0x85 || n == 0xA0 || n == 0x1680 || (0x2000 ≤ n && n ≤ 0x200A) || n == 0x2028 ||
      n == 0x2029 || n == 0x202F || n == 0x205F || n == 0x3000))

def dropMargins (cs : List Char) : List Char :=
  ((cs.dropWhile isMargin).reverse.dropWhile isMargin).reverse

/-- The value of a run of digits, most significant first. -/
def natOfDigits (ds : List Nat) : Nat :=
  ds.foldl (fun n d => 10 * n + d) 0

/-- The most digits that a number may be written with. -/
def maxDigits : Nat := 4300

/-- The digits of an unsigned number: groups of at least one digit, joined by low lines. The second
argument says whether a digit stands just before. -/
def digits? : List Char → Bool → Option (List Nat)
  | [], after => if after then some [] else none
  | c :: cs, after =>
    if c == '_' then (if after then digits? cs false else none)
    else match digit? c with
      | none => none
      | some d => (digits? cs true).map (d :: ·)

def unsigned? (cs : List Char) : Option Nat :=
  match digits? cs false with
  | some ds => if ds.length ≤ maxDigits then some (natOfDigits ds) else none
  | none => none

/-- The integer that the text writes, or nothing if it writes none. -/
def integer? (s : String) : Option Int :=
  match dropMargins s.toList with
  | '-' :: cs => (unsigned? cs).map fun n => -(n : Int)
  | '+' :: cs => (unsigned? cs).map fun n => (n : Int)
  | cs => (unsigned? cs).map fun n => (n : Int)

end PipelineShell.Text
