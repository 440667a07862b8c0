import PipelineShell.Text.Hidden

/-! Texts shown in quotes, with what cannot be seen written as escapes. -/

namespace PipelineShell.Text

def hex (digits n : Nat) : List Char :=
  let cs := Nat.toDigits 16 n
  List.replicate (digits - cs.length) '0' ++ cs

def literalChar (mark c : Char) : List Char :=
  if c = mark || c = '\\' then ['\\', c]
  else if c = '\n' then ['\\', 'n']
  else if c = '\r' then ['\\', 'r']
  else if c = '\t' then ['\\', 't']
  else if !isHidden c then [c]
  else if c.toNat < 0x100 then '\\' :: 'x' :: hex 2 c.toNat
  else if c.toNat < 0x10000 then '\\' :: 'u' :: hex 4 c.toNat
  else '\\' :: 'U' :: hex 8 c.toNat

/-- A text in apostrophes, or in quotation marks if it holds apostrophes and no such mark. -/
def literal (s : String) : String :=
  let mark := if s.contains '\x27' && !s.contains '\x22' then '\x22' else '\x27'
  String.ofList (mark :: s.toList.flatMap (literalChar mark) ++ [mark])

end PipelineShell.Text
