import PipelineShell.Script.Field

/-! How a tool shows an argument in its complaints: between marks, with the bytes that cannot be
shown written in other ways. -/

namespace PipelineShell.Script

def hiddenByte? (b : UInt8) : Option (List Char) :=
  if 7 ≤ b && b ≤ 13 then some ['\\', "abtnvfr".toList.getD (b.toNat - 7) 'r']
  else if b < 32 || 127 ≤ b then some ('\\' :: Spec.fillZeros 3 (Nat.toDigits 8 b.toNat))
  else none

def quotedArgument (s : String) : String :=
  let shown (b : UInt8) : List Char :=
    let c := Char.ofNat b.toNat
    (hiddenByte? b).getD (if c = '\x27' || c = '\\' then ['\\', c] else [c])
  "'" ++ String.ofList ((bytesOf s).flatMap shown) ++ "'"

/-- A file name as an argument for a shell, from a place on that lies between apostrophes, or also
behind a mark for the bytes that cannot be shown. -/
def quotedFrom (escaped : Bool) : Bytes → List Char
  | [] => ['\x27']
  | b :: bs =>
    match hiddenByte? b with
    | some cs => (if escaped then [] else "'$'".toList) ++ cs ++ quotedFrom true bs
    | none =>
      if b == byte '\x27' then "'\\''".toList ++ quotedFrom false bs
      else (if escaped then "''".toList else []) ++ Char.ofNat b.toNat :: quotedFrom false bs

/-- Whether a shell takes a name for more than its characters, or it cannot be shown as it is. -/
def needsQuotes (name : List Char) : Bool :=
  name.isEmpty || name = ['\x7b'] || name = ['\x7d'] ||
    "#~".toList.any (name.head? = some ·) ||
    name.any fun c => " !\x22$&'()*;<=>[^`|?\\:".toList.contains c || c < ' ' || '\x7e' < c

def isSameQuoted (name : List Char) : Bool :=
  name.zipIdx.all fun (c, i) =>
    c.isAlphanum || "%+,-./:]_ '".toList.contains c || (i = 0 && (c = '#' || c = '~'))

/-- A file name, as an argument for a shell where that is needed. A name with an apostrophe whose
last byte cannot be shown is written as if such a byte stood before it as well. -/
def shownName (name : String) : String :=
  let cs := name.toList
  if !needsQuotes cs then name
  else
    let hasApostrophe := cs.contains '\x27'
    let bs := bytesOf name
    if hasApostrophe && isSameQuoted cs then "\x22" ++ name ++ "\x22"
    else
      let escaped := hasApostrophe && (bs.getLast?.bind hiddenByte?).isSome
      String.ofList ('\x27' :: quotedFrom escaped bs)

end PipelineShell.Script
