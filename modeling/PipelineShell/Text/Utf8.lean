/-! The bytes of a text, and the text of arbitrary bytes. Bytes that encode nothing are replaced,
one mark for each longest stretch that could have begun a character. Bytes may come piece by piece.
-/

namespace PipelineShell.Text

instance decidableEqBytes : DecidableEq ByteArray :=
  ByteArray.decEq

def encode (s : String) : ByteArray :=
  s.toUTF8

/-- The mark that stands for bytes which encode nothing. -/
def replacement : Char := '\ufffd'

/-- How many bytes a character has that begins with this one, if any does. -/
def lengthFrom (lead : UInt8) : Option Nat :=
  if lead < 0x80 then some 1
  else if lead < 0xC2 then none
  else if lead < 0xE0 then some 2
  else if lead < 0xF0 then some 3
  else if lead < 0xF5 then some 4
  else none

/-- Whether a byte can be the second of a character that begins with the other one. Some leads leave
out a part of the range, where the character would have a shorter form or none. -/
def isSecond (lead b : UInt8) : Bool :=
  let low : UInt8 := if lead = 0xE0 then 0xA0 else if lead = 0xF0 then 0x90 else 0x80
  let high : UInt8 := if lead = 0xED then 0x9F else if lead = 0xF4 then 0x8F else 0xBF
  low ≤ b && b ≤ high

/-- The character of some bytes, the first of which has lost its mark of length. -/
def charOf (lead : Nat) (more : List UInt8) : Char :=
  Char.ofNat (more.foldl (fun n b => 64 * n + (b.toNat - 0x80)) lead)

/-- A reader of bytes: the text read, and the bytes of a character that is not complete. -/
structure Decoder where
  text : String
  held : List UInt8
deriving DecidableEq

namespace Decoder

def start : Decoder := ⟨"", []⟩

/-- The reader after a byte that begins something new. -/
def begin (text : String) (b : UInt8) : Decoder :=
  match lengthFrom b with
  | none => ⟨text.push replacement, []⟩
  | some 1 => ⟨text.push (Char.ofNat b.toNat), []⟩
  | some _ => ⟨text, [b]⟩

/-- Whether a byte goes on with the bytes that are held. -/
def goesOn : List UInt8 → UInt8 → Bool
  | [], _ => false
  | [lead], b => isSecond lead b
  | _, b => 0x80 ≤ b && b ≤ 0xBF

/-- The character that the bytes encode once they are complete. -/
def complete? : List UInt8 → Option Char
  | [a, b] => if a < 0xE0 then some (charOf (a.toNat - 0xC0) [b]) else none
  | [a, b, c] => if a < 0xF0 then some (charOf (a.toNat - 0xE0) [b, c]) else none
  | [a, b, c, d] => some (charOf (a.toNat - 0xF0) [b, c, d])
  | _ => none

def step (d : Decoder) (b : UInt8) : Decoder :=
  if goesOn d.held b then
    match complete? (d.held ++ [b]) with
    | some c => ⟨d.text.push c, []⟩
    | none => ⟨d.text, d.held ++ [b]⟩
  else if d.held.isEmpty then begin d.text b
  else begin (d.text.push replacement) b

def feed (d : Decoder) (piece : ByteArray) : Decoder :=
  piece.data.foldl step d

/-- All of the text. A character that is not complete at the end is replaced. -/
def finish (d : Decoder) : String :=
  if d.held.isEmpty then d.text else d.text.push replacement

end Decoder

def decode (b : ByteArray) : String :=
  (Decoder.start.feed b).finish

/-- Why some bytes encode no character: none begins with the first, the byte after them does not go
on with them, or there are no more bytes. -/
inductive DecodeReason
  | badStart
  | badContinuation
  | endOfData
deriving DecidableEq

/-- The bytes that encode no character, from a position on. -/
structure DecodeFault where
  position : Nat
  bytes : List UInt8
  reason : DecodeReason
deriving DecidableEq

namespace DecodeFault

def hex (b : UInt8) : String :=
  String.ofList [Nat.digitChar (b.toNat / 16), Nat.digitChar (b.toNat % 16)]

def message (f : DecodeFault) : String :=
  "'utf-8' codec can't decode " ++
    (match f.bytes with
    | [b] => "byte 0x" ++ hex b ++ " in position " ++ toString f.position
    | bs =>
      "bytes in position " ++ toString f.position ++ "-" ++
        toString (f.position + bs.length - 1)) ++
    ": " ++
    match f.reason with
    | .badStart => "invalid start byte"
    | .badContinuation => "invalid continuation byte"
    | .endOfData => "unexpected end of data"

end DecodeFault

/-- The first bytes that encode no character, before the rest of the bytes at a position. -/
def Decoder.firstFault (d : Decoder) (position : Nat) : List UInt8 → Option DecodeFault
  | [] =>
    if d.held.isEmpty then none
    else some ⟨position - d.held.length, d.held, .endOfData⟩
  | b :: bs =>
    if !d.held.isEmpty && !goesOn d.held b then
      some ⟨position - d.held.length, d.held, .badContinuation⟩
    else if d.held.isEmpty && (lengthFrom b).isNone then some ⟨position, [b], .badStart⟩
    else (d.step b).firstFault (position + 1) bs

def decode? (b : ByteArray) : Except DecodeFault String :=
  match Decoder.start.firstFault 0 b.data.toList with
  | some f => .error f
  | none => .ok (decode b)

/-- The text of bytes that come in pieces. A character may begin in one and end in another. -/
def decodePieces (pieces : List ByteArray) : String :=
  (pieces.foldl Decoder.feed Decoder.start).finish

end PipelineShell.Text
