import PipelineShell.Environment
import PipelineShell.Text.Blank
import PipelineShell.Word

/-! A file of settings. Each line sets a name to a value, which may be quoted and may refer to the
values of other names. A line that cannot be read is left out. -/

namespace PipelineShell.Settings

def isLineBlank (c : Char) : Bool :=
  Text.isBlank c && c != '\n' && c != '\r'

def isLineEnd (c : Char) : Bool :=
  c == '\n' || c == '\r'

def dropLine (cs : List Char) : List Char :=
  (cs.dropWhile (!isLineEnd ·)).drop 1

/-- The text after the word `export`, if white space follows it. -/
def dropExport (cs : List Char) : List Char :=
  if "export".toList.isPrefixOf cs then
    let rest := cs.drop 6
    if (rest.takeWhile isLineBlank).isEmpty then cs else rest.dropWhile isLineBlank
  else cs

/-- A quoted value and the rest after the mark that ends it. A backslash keeps the character after
it from ending the value. -/
def quoted (mark : Char) : List Char → Option (List Char × List Char)
  | [] => none
  | c :: cs =>
    if c = mark then some ([], cs)
    else if c = backslash then
      match cs with
      | [] => none
      | d :: cs => (quoted mark cs).map fun (value, rest) => (c :: d :: value, rest)
    else (quoted mark cs).map fun (value, rest) => (c :: value, rest)

/-- What a backslash and a character mean within quotation marks. -/
def escape? (c : Char) : Option Char :=
  if c = backslash || c = apostrophe || c = quotationMark then some c
  else match c with
    | 'a' => some '\x07'
    | 'b' => some '\x08'
    | 'f' => some '\x0c'
    | 'n' => some '\n'
    | 'r' => some '\r'
    | 't' => some '\t'
    | 'v' => some '\x0b'
    | _ => none

/-- A text with its escapes replaced by what they mean. -/
def unescape (meaning : Char → Option Char) : List Char → List Char
  | [] => []
  | [c] => [c]
  | c :: d :: cs =>
    if c = backslash then
      match meaning d with
      | some e => e :: unescape meaning cs
      | none => c :: unescape meaning (d :: cs)
    else c :: unescape meaning (d :: cs)

/-- A bare value: a comment after white space is no part of it, nor is white space at its end. -/
def bareValue (cs : List Char) : List Char :=
  let rec cut : List Char → List Char → List Char
    | [], done => done
    | c :: cs, done =>
      if c = '#' ∧ (done.head?.map Text.isBlank).getD false then done else cut cs (c :: done)
  ((cut cs []).dropWhile Text.isBlank).reverse

/-- The value after an equals sign, and the rest after it. A comment may follow white space alone.
-/
def readValue (cs : List Char) : Option (List Char × List Char) :=
  match cs.dropWhile isLineBlank with
  | [] => some ([], [])
  | c :: rest =>
    if c = apostrophe then
      (quoted c rest).map fun (v, rest) =>
        (unescape (fun d => if d = backslash || d = apostrophe then some d else none) v, rest)
    else if c = quotationMark then (quoted c rest).map fun (v, rest) => (unescape escape? v, rest)
    else if isLineEnd c then some ([], c :: rest)
    else
      let line := (c :: rest).takeWhile (!isLineEnd ·)
      let commented := c = '#' ∧ (cs.head?.map isLineBlank).getD false
      some (if commented then [] else bareValue line, (c :: rest).dropWhile (!isLineEnd ·))

/-- The name at the front, and the rest after it. A comment names nothing. -/
def readName : List Char → Option (Option (List Char) × List Char)
  | [] => none
  | c :: cs =>
    if c = '#' then some (none, c :: cs)
    else if c = apostrophe then
      let name := cs.takeWhile (· != apostrophe)
      match cs.dropWhile (· != apostrophe) with
      | _ :: rest => if name.isEmpty then none else some (some name, rest)
      | [] => none
    else
      let inName (c : Char) : Bool := c != '=' && c != '#' && !Text.isBlank c
      let name := (c :: cs).takeWhile inName
      if name.isEmpty then none else some (some name, (c :: cs).dropWhile inName)

/-- What is left of a line after its setting: a comment at most. -/
def readEnd (cs : List Char) : Option (List Char) :=
  let cs := match cs.dropWhile isLineBlank with
    | '#' :: comment => comment.dropWhile (!isLineEnd ·)
    | _ => cs
  match cs.dropWhile isLineBlank with
  | [] => some []
  | c :: rest => if isLineEnd c then some rest else none

/-- The setting on a line, and the rest after the line. A name may stand without a value. -/
def readSetting (cs : List Char) :
    Except (List Char) (Option (String × Option String) × List Char) :=
  match readName (dropExport cs) with
  | none => .error (dropExport cs)
  | some (name, rest) =>
    let rest := rest.dropWhile isLineBlank
    match rest with
    | '=' :: more =>
      match readValue more with
      | none => .error more
      | some (value, after) =>
        match readEnd after with
        | none => .error after
        | some after =>
          .ok (name.map fun n => (String.ofList n, some (String.ofList value)), after)
    | _ =>
      match readEnd rest with
      | none => .error rest
      | some after => .ok (name.map fun n => (String.ofList n, none), after)

/-- All settings of a file, in order. The first argument bounds the number of lines. -/
def readSettings : Nat → List Char → List (String × Option String)
  | 0, _ => []
  | lines + 1, cs =>
    match cs.dropWhile Text.isBlank with
    | [] => []
    | c :: cs =>
      match readSetting (c :: cs) with
      | .error rest => readSettings lines (dropLine rest)
      | .ok (some s, rest) => s :: readSettings lines rest
      | .ok (none, rest) => readSettings lines rest

/-- The name and the default of a reference, written between braces, and the rest after it. -/
def readReference (cs : List Char) : Option (List Char × List Char × List Char) :=
  let isEnd (c : Char) : Bool := c == '\x7d'
  let name := cs.takeWhile fun c => !isEnd c && c != ':'
  match cs.dropWhile fun c => !isEnd c && c != ':' with
  | ':' :: '-' :: more =>
    match more.dropWhile (!isEnd ·) with
    | _ :: rest => some (name, more.takeWhile (!isEnd ·), rest)
    | [] => none
  | c :: rest => if isEnd c then some (name, [], rest) else none
  | [] => none

/-- A value with its references replaced. The first argument bounds their number. -/
def resolve (env : String → Option String) : Nat → List Char → List Char
  | 0, cs => cs
  | n + 1, cs =>
    match cs with
    | [] => []
    | '$' :: '\x7b' :: more =>
      match readReference more with
      | some (name, default, rest) =>
        ((env (String.ofList name)).map String.toList).getD default ++ resolve env n rest
      | none => '$' :: resolve env n ('\x7b' :: more)
    | c :: rest => c :: resolve env n rest

/-- What a name stands for in a file, as far as it has been read: its last value there, which may be
none at all, or else the variable. -/
def lookUp (env : Environment) (known : List (String × Option String)) (name : String) :
    Option String :=
  match known.lookup name with
  | some (some value) => some value
  | some none => some ""
  | none => env.get? name

def putLast (name : String) (value : Option String) :
    List (String × Option String) → List (String × Option String)
  | [] => [(name, value)]
  | e :: es => if e.1 = name then (name, value) :: es else e :: putLast name value es

/-- The values that a file gives, each name at its first place with its last value. -/
def fileValues (env : Environment) (text : String) : List (String × Option String) :=
  (readSettings (text.length + 1) text.toList).foldl
    (fun known (name, value) =>
      let value := value.map fun v =>
        String.ofList (resolve (lookUp env known) (v.length + 1) v.toList)
      putLast name value known) []

end PipelineShell.Settings
