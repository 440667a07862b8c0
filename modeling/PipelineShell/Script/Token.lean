import PipelineShell.Redirection

/-! The words and marks of a script. Within a word, quoted and bare text and references to variables
follow one another. -/

namespace PipelineShell.Script

/-- A part of a word. What is quoted is neither split nor lost when it is empty. -/
inductive Part
  | text (s : String) (quoted : Bool)
  | variable (name : String) (quoted : Bool)
deriving DecidableEq

inductive Token
  | word (parts : List Part)
  | bar
  | semicolon
  | newline
  | into (s : Stream)
  | from
  | ampersand
deriving DecidableEq

/-- Where the reader of a script stands: in bare text, within apostrophes or quotation marks, after
a backslash or a dollar sign in or outside such marks, or in a comment. -/
inductive Mode
  | bare
  | single
  | double
  | escape (inDouble : Bool)
  | dollar (inDouble : Bool)
  | name (inDouble : Bool) (chars : List Char)
  | braces (inDouble : Bool) (chars : List Char)
  | comment

/-- A reader of a script, with everything that it has read last first. -/
structure Reader where
  mode : Mode
  chars : List Char
  parts : List Part
  begun : Bool
  tokens : List Token

namespace Reader

def start : Reader := ⟨.bare, [], [], false, []⟩

def endText (r : Reader) (quoted : Bool) : Reader :=
  if r.chars.isEmpty then r
  else { r with
    chars := [], parts := .text (String.ofList r.chars.reverse) quoted :: r.parts, begun := true }

def addPart (r : Reader) (p : Part) : Reader :=
  { r with parts := p :: r.parts, begun := true }

def endWord (r : Reader) : Reader :=
  let r := r.endText false
  if r.begun then
    { r with parts := [], begun := false, tokens := .word r.parts.reverse :: r.tokens }
  else r

def addToken (r : Reader) (t : Token) : Reader :=
  { r with tokens := t :: r.tokens }

/-- A number right before an arrow says which stream it redirects. -/
def addArrow (r : Reader) : Reader :=
  let r := r.endText false
  match r.parts with
  | [.text "1" false] => { r with parts := [], begun := false, tokens := .into .stdout :: r.tokens }
  | [.text "2" false] => { r with parts := [], begun := false, tokens := .into .stderr :: r.tokens }
  | _ => r.endWord.addToken (.into .stdout)

def bareStep (r : Reader) (c : Char) : Reader :=
  if c = ' ' ∨ c = '\t' then r.endWord
  else if c = '\n' then r.endWord.addToken .newline
  else if c = ';' then r.endWord.addToken .semicolon
  else if c = '|' then r.endWord.addToken .bar
  else if c = '&' then r.endWord.addToken .ampersand
  else if c = '<' then r.endWord.addToken .from
  else if c = '>' then r.addArrow
  else if c = apostrophe then { r.endText false with mode := .single, begun := true }
  else if c = quotationMark then { r.endText false with mode := .double, begun := true }
  else if c = backslash then { r.endText false with mode := .escape false }
  else if c = '$' then { r.endText false with mode := .dollar false }
  else if c = '#' ∧ !r.begun ∧ r.chars.isEmpty then { r with mode := .comment }
  else { r with chars := c :: r.chars }

def doubleStep (r : Reader) (c : Char) : Reader :=
  if c = quotationMark then { r.endText true with mode := .bare }
  else if c = backslash then { r with mode := .escape true }
  else if c = '$' then { r.endText true with mode := .dollar true }
  else { r with chars := c :: r.chars }

def back (r : Reader) (inDouble : Bool) : Reader :=
  { r with mode := if inDouble then .double else .bare }

def plainStep (r : Reader) (inDouble : Bool) (c : Char) : Reader :=
  if inDouble then doubleStep (r.back true) c else bareStep (r.back false) c

def isNameStart (c : Char) : Bool := c.isAlpha || c == '_'

def isNameChar (c : Char) : Bool := c.isAlphanum || c == '_'

def step (r : Reader) (c : Char) : Reader :=
  match r.mode with
  | .bare => r.bareStep c
  | .single =>
    if c = apostrophe then { r.endText true with mode := .bare }
    else { r with chars := c :: r.chars }
  | .double => r.doubleStep c
  | .escape false =>
    if c = '\n' then r.back false
    else ({ r with chars := [c] }.endText true).back false
  | .escape true =>
    if c = '$' ∨ c = quotationMark ∨ c = backslash ∨ c = '\x60' then
      { r with chars := c :: r.chars }.back true
    else { r with chars := c :: backslash :: r.chars }.back true
  | .dollar q =>
    if isNameStart c then { r with mode := .name q [c] }
    else if c.isDigit ∨ "@*#?$!-".contains c then
      (r.addPart (.variable (String.singleton c) q)).back q
    else if c = '\x7b' then { r with mode := .braces q [] }
    else { r with chars := '$' :: r.chars }.plainStep q c
  | .name q chars =>
    if isNameChar c then { r with mode := .name q (c :: chars) }
    else (r.addPart (.variable (String.ofList chars.reverse) q)).plainStep q c
  | .braces q chars =>
    if c = '\x7d' then (r.addPart (.variable (String.ofList chars.reverse) q)).back q
    else { r with mode := .braces q (c :: chars) }
  | .comment => if c = '\n' then { r with mode := .bare }.addToken .newline else r

def finish (r : Reader) : Reader :=
  match r.mode with
  | .name q chars => (r.addPart (.variable (String.ofList chars.reverse) q)).endWord
  | .dollar _ => { r with chars := '$' :: r.chars }.endWord
  | _ => r.endWord

end Reader

def tokens (script : String) : List Token :=
  (script.toList.foldl Reader.step Reader.start).finish.tokens.reverse

end PipelineShell.Script
