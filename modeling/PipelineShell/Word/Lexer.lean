import PipelineShell.Word
import PipelineShell.Text.Blank

/-! The words of a segment. White space separates words; apostrophes keep everything, quotation
marks keep everything but an escaped mark or backslash, and a backslash elsewhere keeps the next
character. -/

namespace PipelineShell

/-- Where the reader of a segment stands: between words, in the open part of a word, or within
apostrophes or quotation marks. After a backslash the next character decides what it was. -/
inductive LexMode
  | gap
  | bare
  | bareEscape
  | single
  | double
  | doubleEscape
deriving DecidableEq

/-- A reader of a segment: the words read, and the characters of the one begun, last first. -/
structure Lexer where
  mode : LexMode
  word : List Char
  quoted : Bool

namespace Lexer

def start : Lexer := ⟨.gap, [], false⟩

/-- A backslash within quotation marks escapes these and nothing else. -/
def isMarkEscape (c : Char) : Bool :=
  c = quotationMark || c = backslash

/-- The reader within a word that goes on with a character. -/
def enter (l : Lexer) (c : Char) : Lexer :=
  if c = backslash then { l with mode := .bareEscape, quoted := true }
  else if c = apostrophe then { l with mode := .single, quoted := true }
  else if c = quotationMark then { l with mode := .double, quoted := true }
  else { l with mode := .bare, word := c :: l.word }

/-- The word begun so far. A backslash at the end stands for itself, and what is quoted at the end
is closed there. -/
def finish (l : Lexer) : List Word :=
  match l.mode with
  | .gap => []
  | .bareEscape | .doubleEscape => [⟨String.ofList (backslash :: l.word).reverse, l.quoted⟩]
  | _ => [⟨String.ofList l.word.reverse, l.quoted⟩]

/-- The reader after one more character, and the word that the character ended. -/
def step (l : Lexer) (c : Char) : List Word × Lexer :=
  match l.mode with
  | .gap | .bare => if Text.isBlank c then (l.finish, start) else ([], l.enter c)
  | .bareEscape => ([], { l with mode := .bare, word := c :: l.word })
  | .single =>
    if c = apostrophe then ([], { l with mode := .bare })
    else ([], { l with word := c :: l.word })
  | .double =>
    if c = quotationMark then ([], { l with mode := .bare })
    else if c = backslash then ([], { l with mode := .doubleEscape })
    else ([], { l with word := c :: l.word })
  | .doubleEscape =>
    if isMarkEscape c then ([], { l with mode := .double, word := c :: l.word })
    else ([], { l with mode := .double, word := c :: backslash :: l.word })

/-- The words of the rest of a segment. -/
def words (l : Lexer) : List Char → List Word
  | [] => l.finish
  | c :: rest => (l.step c).1 ++ words (l.step c).2 rest

end Lexer

def Word.ofSegment (segment : String) : List Word :=
  Lexer.start.words segment.toList

end PipelineShell
