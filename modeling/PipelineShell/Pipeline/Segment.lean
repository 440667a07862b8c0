import PipelineShell.Word

/-! The segments of a line, cut at each bar that is neither quoted nor escaped. All other characters
stay, marks and backslashes included. -/

namespace PipelineShell

/-- Where the reader of a line stands. An escape remembers whether it stands within quotation
marks. -/
inductive ScanMode
  | plain
  | single
  | double
  | escape (inDouble : Bool)
deriving DecidableEq

namespace ScanMode

def step : ScanMode → Char → ScanMode
  | .escape inDouble, _ => if inDouble then .double else .plain
  | .single, c => if c = apostrophe then .plain else .single
  | .double, c =>
    if c = quotationMark then .plain else if c = backslash then .escape true else .double
  | .plain, c =>
    if c = apostrophe then .single
    else if c = quotationMark then .double
    else if c = backslash then .escape false
    else .plain

def run (m : ScanMode) (cs : List Char) : ScanMode :=
  cs.foldl step m

/-- A bar here ends a segment. -/
def cuts (m : ScanMode) (c : Char) : Bool :=
  m = .plain && c = '|'

end ScanMode

/-- The segments of the rest of a line, the first of which begins with `done`, last character
first. -/
def segmentsFrom (m : ScanMode) (done : List Char) : List Char → List (List Char)
  | [] => [done.reverse]
  | c :: rest =>
    if m.cuts c then done.reverse :: segmentsFrom .plain [] rest
    else segmentsFrom (m.step c) (c :: done) rest

def segments (line : String) : List String :=
  (segmentsFrom .plain [] line.toList).map String.ofList

end PipelineShell
