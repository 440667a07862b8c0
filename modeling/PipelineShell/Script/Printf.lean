import PipelineShell.Script.Field

/-! Bytes written after a format, which is used again while arguments are left. -/

namespace PipelineShell.Script

def isOctal (b : UInt8) : Bool := byte '0' ≤ b && b ≤ byte '7'

def octal : Nat → Nat → Bytes → Nat × Bytes
  | 0, n, bs => (n, bs)
  | _, n, [] => (n, [])
  | digits + 1, n, b :: bs =>
    if isOctal b then octal digits (8 * n + (b - byte '0').toNat) bs else (n, b :: bs)

def escape : Bytes → Bytes × Bytes
  | [] => ([byte '\\'], [])
  | b :: bs =>
    if isOctal b then
      let (n, rest) := octal 3 0 (b :: bs)
      ([n.toUInt8], rest)
    else if b == byte '\\' then ([b], bs)
    else if b == byte 'a' then ([7], bs)
    else if b == byte 'b' then ([8], bs)
    else if b == byte 'e' then ([27], bs)
    else if b == byte 'f' then ([12], bs)
    else if b == byte 'n' then ([10], bs)
    else if b == byte 'r' then ([13], bs)
    else if b == byte 't' then ([9], bs)
    else if b == byte 'v' then ([11], bs)
    else ([byte '\\'], b :: bs)

/-- A text with its escapes replaced, and whether it asks for nothing more. There an octal number
follows a zero. The first argument bounds the number of steps. -/
def unescaped : Nat → Bytes → Bytes × Bool
  | 0, _ => ([], false)
  | _, [] => ([], false)
  | n + 1, b :: bs =>
    if b != byte '\\' then
      let (rest, stop) := unescaped n bs
      (b :: rest, stop)
    else
      match bs with
      | c :: more =>
        if c == byte 'c' then ([], true)
        else
          let (out, after) :=
            if c == byte '0' then
              let (v, rest) := octal 3 0 more
              ([v.toUInt8], rest)
            else escape bs
          let (rest, stop) := unescaped n after
          (out ++ rest, stop)
      | [] => ([b], false)

def unescapeText (s : String) : Bytes × Bool :=
  let bs := bytesOf s
  unescaped (bs.length + 1) bs

def asByte (c : Char) : Char :=
  if c.toNat < 128 then c else Text.replacement

/-- What is wrong with an argument for a number, given what follows the number in it. -/
def conversionTrouble (arg : String) (rest : List Char) (outside : Bool) : List String :=
  if !rest.isEmpty then
    if rest = arg.toList then [arg ++ ": expected numeric value"]
    else [arg ++ ": not completely converted"]
  else if outside then [arg ++ ": Numerical result out of range"]
  else []

def quotedValue? (arg : String) : Option Nat :=
  match bytesOf arg with
  | q :: bs => if q == byte '\x27' || q == byte '\x22' then some (bs.headD 0).toNat else none
  | [] => none

/-- The value of an argument for a whole number, and what is wrong with it. One outside the range is
the nearest inside, and one below zero is taken from the end of the range if there are no signs. -/
def wholeValue (signed : Bool) (arg : String) : Int × List String :=
  match quotedValue? arg with
  | some n => (n, [])
  | none =>
    let (negative, cs) := readSign (arg.toList.dropWhile isSpace)
    match readWhole cs with
    | none => (0, conversionTrouble arg arg.toList false)
    | some (n, rest) =>
      let v : Int := if negative then -n else n
      let (low, high) : Int × Int :=
        if signed then (-Int.pow 2 63, Int.pow 2 63 - 1) else (1 - Int.pow 2 64, Int.pow 2 64 - 1)
      let outside := v < low || high < v
      let v := if signed then min (max v low) high else if outside then high else v % Int.pow 2 64
      (v, conversionTrouble arg rest outside)

/-- The value of an argument for a number that may have a fraction, and what is wrong with it. -/
def realValue (arg : String) : Quantity × List String :=
  match quotedValue? arg with
  | some n => (.finite false n, [])
  | none =>
    match readQuantity arg.toList with
    | none => (.finite false 0, conversionTrouble arg arg.toList false)
    | some (q, rest) =>
      let (q, outside) := doubleRange.round q
      (q, conversionTrouble arg rest outside)

def readNat : Nat → Bytes → Nat × Bytes
  | n, [] => (n, [])
  | n, b :: bs =>
    if byte '0' ≤ b && b ≤ byte '9' then readNat (10 * n + (b - byte '0').toNat) bs
    else (n, b :: bs)

def readFlags : Bytes → Spec → Spec × Bytes
  | [], s => (s, [])
  | b :: bs, s =>
    if b == byte '-' then readFlags bs { s with left := true }
    else if b == byte '0' then readFlags bs { s with zero := true }
    else if b == byte '+' then readFlags bs { s with plus := true }
    else if b == byte ' ' then readFlags bs { s with blank := true }
    else if b == byte '#' then readFlags bs { s with alternate := true }
    else (s, b :: bs)

/-- What is left of a format and of the arguments, and what was wrong with those used up. -/
structure Remains where
  format : Bytes
  args : List String
  complaints : List String

/-- A number in the format, or in the next argument where a star stands for it. -/
def readExtent (r : Remains) : Int × Remains :=
  match r.format with
  | [] => (0, r)
  | b :: rest =>
    if b == byte '*' then
      let (v, wrong) := (r.args.head?.map (wholeValue true)).getD (0, [])
      (v.bmod (Nat.pow 2 32), ⟨rest, r.args.drop 1, r.complaints ++ wrong⟩)
    else
      let (n, rest) := readNat 0 r.format
      (n, { r with format := rest })

/-- The flags, width and precision at the front of a directive. A width below zero asks for the
left, a precision below zero is none. -/
def readSpec (r : Remains) : Spec × Remains :=
  let (s, format) := readFlags r.format .plain
  let (width, r) := readExtent { r with format }
  let s := { s with width := width.natAbs, left := s.left || width < 0 }
  if r.format.head? = some (byte '.') then
    let (places, r) := readExtent { r with format := r.format.drop 1 }
    ({ s with places := if places < 0 then none else some places.toNat }, r)
  else (s, r)

/-- What a directive writes for an argument, what is wrong with that, and whether the text ends
there; none if there is no such directive. -/
def directive? (s : Spec) (letter : Char) (arg : Option String) :
    Option (Bytes × List String × Bool) :=
  let text := arg.getD ""
  let cut (bs : Bytes) := match s.places with
    | some k => bs.take k
    | none => bs
  let real (n : Spec.Style) (upper : Bool) :=
    let (q, wrong) := (arg.map realValue).getD (.finite false 0, [])
    some (s.real n upper q, wrong, false)
  let natural (base : Nat) (upper : Bool) :=
    let (v, wrong) := (arg.map (wholeValue false)).getD (0, [])
    some (s.whole base upper "" v.toNat, wrong, false)
  match letter with
  | 's' => some (s.pad (cut (bytesOf text)), [], false)
  | 'b' =>
    let (bs, stop) := unescapeText text
    some (s.pad (cut bs), [], stop)
  | 'c' => some (s.pad [(bytesOf text).headD 0], [], false)
  | 'd' | 'i' =>
    let (v, wrong) := (arg.map (wholeValue true)).getD (0, [])
    some (s.whole 10 false (s.sign (v < 0)) v.natAbs, wrong, false)
  | 'u' => natural 10 false
  | 'o' => natural 8 false
  | 'x' => natural 16 false
  | 'X' => natural 16 true
  | 'f' => real .fixed false
  | 'F' => real .fixed true
  | 'e' => real .scientific false
  | 'E' => real .scientific true
  | 'g' => real .general false
  | 'G' => real .general true
  | 'a' => real .hexadecimal false
  | 'A' => real .hexadecimal true
  | _ => none

/-- What one pass over a format gives: the bytes, what is wrong, the arguments left, and whether the
text ends here. -/
structure Pass where
  out : Bytes
  complaints : List String
  args : List String
  stop : Bool

/-- One pass over a format. The first argument bounds the number of steps. -/
def pass : Nat → Bytes → List String → Pass
  | 0, _, args => ⟨[], [], args, false⟩
  | _, [], args => ⟨[], [], args, false⟩
  | n + 1, b :: bs, args =>
    let after (out : Bytes) (r : Remains) : Pass :=
      let p := pass n r.format r.args
      { p with out := out ++ p.out, complaints := r.complaints ++ p.complaints }
    if b == byte '\\' then
      let (out, rest) := escape bs
      after out ⟨rest, args, []⟩
    else if b != byte '%' then after [b] ⟨bs, args, []⟩
    else if bs.head? = some (byte '%') then after [b] ⟨bs.drop 1, args, []⟩
    else
      let (s, r) := readSpec ⟨bs, args, []⟩
      match r.format with
      | [] => ⟨[], r.complaints ++ ["missing format character"], r.args, true⟩
      | d :: rest =>
        match directive? s (Char.ofNat d.toNat) r.args.head? with
        | some (out, wrong, stop) =>
          let r : Remains := ⟨rest, r.args.drop 1, r.complaints ++ wrong⟩
          if stop then ⟨out, r.complaints, r.args, true⟩ else after out r
        | none =>
          let text := (bs.take (bs.length - rest.length)).map fun b => asByte (Char.ofNat b.toNat)
          let trouble := String.ofList ('%' :: text) ++ ": invalid directive"
          ⟨[], r.complaints ++ [trouble], r.args, true⟩

/-- All passes: the format is used again while it uses up arguments. The first argument bounds the
number of passes. -/
def passes : Nat → Bytes → List String → Bytes × List String
  | 0, _, _ => ([], [])
  | n + 1, format, args =>
    let p := pass (format.length + 1) format args
    if p.stop || p.args.isEmpty || p.args.length == args.length then (p.out, p.complaints)
    else
      let (out, complaints) := passes n format p.args
      (p.out ++ out, p.complaints ++ complaints)

/-- The bytes written, and what is wrong with format or arguments. -/
def printf (format : String) (args : List String) : Bytes × List String :=
  passes (args.length + 1) (bytesOf format) args

end PipelineShell.Script
