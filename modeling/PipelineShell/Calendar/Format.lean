import PipelineShell.Calendar
import PipelineShell.Text.Upper

/-! Times written after a pattern. A directive begins with a percent sign; flags, a width and a
modifier may stand before its letter. One that means nothing is written as it stands. -/

namespace PipelineShell.Calendar

structure Directive where
  pad : Option Char
  upper : Bool
  swap : Bool
  width : Nat
  modifier : Option Char
  letter : Option Char
  source : List Char

def readFlags : List Char → Directive → List Char × Directive
  | [], d => ([], d)
  | c :: cs, d =>
    if c = '_' ∨ c = '-' ∨ c = '0' then
      readFlags cs { d with pad := some c, source := d.source ++ [c] }
    else if c = '^' then readFlags cs { d with upper := true, source := d.source ++ [c] }
    else if c = '#' then readFlags cs { d with swap := true, source := d.source ++ [c] }
    else (c :: cs, d)

/-- No field is wider. -/
def widest : Nat := 2147483647

def readWidth : List Char → Directive → List Char × Directive
  | [], d => ([], d)
  | c :: cs, d =>
    if c.isDigit then
      readWidth cs
        { d with width := min widest (10 * d.width + (c.toNat - 48)), source := d.source ++ [c] }
    else (c :: cs, d)

def readModifier : List Char → Directive → List Char × Directive
  | [], d => ([], d)
  | c :: cs, d =>
    if c = 'E' ∨ c = 'O' then (cs, { d with modifier := some c, source := d.source ++ [c] })
    else (c :: cs, d)

def readLetter : List Char → Directive → List Char × Directive
  | [], d => ([], d)
  | c :: cs, d => (cs, { d with letter := some c, source := d.source ++ [c] })

/-- The directive after a percent sign, and the rest of the pattern. -/
def readDirective (cs : List Char) : List Char × Directive :=
  let (cs, d) := readFlags cs ⟨none, false, false, 0, none, none, ['%']⟩
  let (cs, d) := readWidth cs d
  let (cs, d) := readModifier cs d
  readLetter cs d

/-- What a directive stands for: a number of at least so many digits, or of so many places; a word,
which may be written in capitals or not; a single mark; a pattern of its own; or nothing known. -/
inductive Field
  | number (digits : Nat) (value : Int)
  | spaced (digits : Nat) (value : Int)
  | word (text : String)
  | capitals (text : String)
  | lower (text : String)
  | mark (c : Char)
  | pattern (text : String)
  | unknown
  | nothing

def dayNames : List String :=
  ["Sunday", "Monday", "Tuesday", "Wednesday", "Thursday", "Friday", "Saturday"]

def monthNames : List String :=
  ["January", "February", "March", "April", "May", "June", "July", "August", "September",
    "October", "November", "December"]

def dayName (m : Moment) : String :=
  dayNames.getD m.weekday.toNat ""

def monthName (m : Moment) : String :=
  monthNames.getD (m.month - 1) ""

def short (name : String) : String :=
  String.ofList (name.toList.take 3)

def plainField (m : Moment) (d : Directive) (c : Char) : Field :=
  let name (s : String) : Field := if d.swap then .capitals s else .word s
  match c with
  | '%' => .mark '%'
  | 'n' => .mark '\n'
  | 't' => .mark '\t'
  | 'a' => name (short (dayName m))
  | 'A' => name (dayName m)
  | 'b' | 'h' => name (short (monthName m))
  | 'B' => name (monthName m)
  | 'c' => .pattern "%a %b %e %H:%M:%S %Y"
  | 'x' | 'D' => .pattern "%m/%d/%y"
  | 'X' | 'T' => .pattern "%H:%M:%S"
  | 'F' => .pattern "%Y-%m-%d"
  | 'R' => .pattern "%H:%M"
  | 'r' => .pattern "%I:%M:%S %p"
  | 'C' => .number 1 (m.year / 100 : Nat)
  | 'd' => .number 2 m.day
  | 'e' => .spaced 2 m.day
  | 'H' => .number 2 m.hour
  | 'I' => .number 2 m.dialHour
  | 'k' => .spaced 2 m.hour
  | 'l' => .spaced 2 m.dialHour
  | 'j' => .number 3 (m.yearDay + 1)
  | 'M' => .number 2 m.minute
  | 'm' => .number 2 m.month
  | 'P' => .lower (if m.hour < 12 then "AM" else "PM")
  | 'p' =>
    let half := if m.hour < 12 then "AM" else "PM"
    if d.swap then .lower half else .word half
  | 'S' => .number 2 m.second
  | 's' => .word (toString m.epoch)
  | 'u' => .number 1 ((m.weekday + 6) % 7 + 1)
  | 'w' => .number 1 m.weekday
  | 'U' => .number 2 m.sundayWeek
  | 'W' => .number 2 m.mondayWeek
  | 'V' => .number 2 m.isoWeek.2
  | 'G' => .number 1 m.isoWeek.1
  | 'g' => .number 2 (m.isoWeek.1 % 100)
  | 'Y' => .number 1 m.year
  | 'y' => .number 2 (m.year % 100 : Nat)
  | 'Z' => .word ""
  | 'z' => .nothing
  | _ => .unknown

def refuses (modifier : Char) (letter : Char) : Bool :=
  if modifier = 'E' then "aAbBdDeFgGhHIjklmMSUVwW".contains letter
  else "aAcDFxXY".contains letter

/-- What a directive stands for. Where a modifier spoils a percent sign, that sign alone is left,
and where it spoils the name of a month, capitals may be. -/
def field (m : Moment) (d : Directive) : Field :=
  match d.letter, d.modifier with
  | none, _ => .unknown
  | some c, none => plainField m d c
  | some c, some e =>
    if c = '%' then .mark '%'
    else if refuses e c then
      (if d.swap && "bBh".contains c then .capitals (String.ofList d.source) else .unknown)
    else plainField m d c

/-- Characters in a field that is at least so wide, if there is room for them. -/
def place (room width : Nat) (pad : Option Char) (cs : List Char) : Option (List Char) :=
  if room ≤ max width cs.length then none
  else
    let filler := if pad = some '0' then '0' else ' '
    some (List.replicate (width - cs.length) filler ++ cs)

def capital (c : Char) : Char :=
  match Text.upperTable.mapChar c with
  | [u] => u
  | _ => c

/-- A number with at least so many digits. Spaces may stand for zeros, or nothing at all. -/
def number (room : Nat) (d : Directive) (pad : Option Char) (digits : Nat) (value : Int) :
    Option (List Char) :=
  let digits := max digits d.width
  let raw := (toString value).toList
  if pad = some '-' ∨ digits ≤ raw.length then place room d.width pad raw
  else if pad = some '_' then place room digits none raw
  else if room ≤ digits then none
  else
    let zeros := List.replicate (digits - raw.length) '0'
    some (if value < 0 then '-' :: zeros ++ raw.drop 1 else zeros ++ raw)

/-- The text of a pattern, if it is shorter than the room for it. The first argument bounds the
depth of patterns in patterns, the second the directives of one. -/
def layOut (m : Moment) : Nat → Nat → Nat → List Char → Option (List Char)
  | 0, _, _, _ => none
  | _, 0, room, _ => if room = 0 then none else some []
  | _, _, room, [] => if room = 0 then none else some []
  | depth + 1, steps + 1, room, c :: cs =>
    let after (written : Option (List Char)) (rest : List Char) : Option (List Char) := do
      let w ← written
      let r ← layOut m (depth + 1) steps (room - w.length) rest
      pure (w ++ r)
    if c ≠ '%' then after (place room 0 none [c]) cs
    else
      let (rest, d) := readDirective cs
      let shown (text : String) := if d.upper then text.toList.map capital else text.toList
      let written : Option (List Char) := match field m d with
        | .number digits value => number room d d.pad digits value
        | .spaced digits value => number room d (d.pad <|> some '_') digits value
        | .word text => place room d.width d.pad (shown text)
        | .capitals text => place room d.width d.pad (text.toList.map capital)
        | .lower text => place room d.width d.pad (text.toList.map Char.toLower)
        | .mark c => place room d.width d.pad [c]
        | .pattern text =>
          match layOut m depth text.length room text.toList with
          | some inner => place room d.width d.pad (if d.upper then inner.map capital else inner)
          | none => none
        | .unknown => place room d.width d.pad (shown (String.ofList d.source))
        | .nothing => some []
      after written rest

/-- The pattern with the directives that are filled in beforehand: a time without a zone has no zone
name or distance, and fractions of a second have six digits. What follows a null is dropped. -/
def prepare (m : Moment) : List Char → List Char
  | [] => []
  | '%' :: c :: cs =>
    if c = 'z' ∨ c = 'Z' then prepare m cs
    else if c = 'f' then
      let digits := (toString m.microsecond).toList
      List.replicate (6 - digits.length) '0' ++ digits ++ prepare m cs
    else if c = '\x00' then ['%']
    else '%' :: c :: prepare m cs
  | c :: cs => if c = '\x00' then [] else c :: prepare m cs

/-- A text has room for 256 times the characters of its pattern, rounded up to a power of two. -/
def room (pattern : List Char) : Nat :=
  max 1024 (256 * pattern.length).nextPowerOfTwo

/-- The time after a pattern. Nothing is written where the text finds no room. -/
def format (m : Moment) (pattern : String) : String :=
  let cs := prepare m pattern.toList
  match layOut m 3 cs.length (room cs) cs with
  | some text => String.ofList text
  | none => ""

end PipelineShell.Calendar
