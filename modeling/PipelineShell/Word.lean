import PipelineShell.Text.Sorted

/-! Words of a command line, and how a text is written so that it is read as one word. -/

namespace PipelineShell

def apostrophe : Char := '\x27'
def quotationMark : Char := '\x22'
def backslash : Char := '\\'

/-- A word remembers whether any part of it was quoted or escaped. Such a word is never an
operator. -/
structure Word where
  text : String
  quoted : Bool
deriving DecidableEq

/-- The characters that mean themselves wherever they stand. -/
def isSafe (c : Char) : Bool :=
  c.isAlphanum || c == '_' || c == '@' || c == '%' || c == '+' || c == '=' || c == ':' ||
    c == ',' || c == '.' || c == '/' || c == '-'

/-- A character inside apostrophes. An apostrophe leaves them, is written in quotation marks, and
enters them again. -/
def quoteChar (c : Char) : List Char :=
  if c = apostrophe then [apostrophe, quotationMark, apostrophe, quotationMark, apostrophe] else [c]

/-- Characters written so that they are read as one word. -/
def quoteChars (cs : List Char) : List Char :=
  if cs.all isSafe && !cs.isEmpty then cs
  else apostrophe :: cs.flatMap quoteChar ++ [apostrophe]

def quote (s : String) : String :=
  String.ofList (quoteChars s.toList)

end PipelineShell
