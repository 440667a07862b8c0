import PipelineShell.Script.Process

/-! What an executable file does: it is a tool of the system, or a script that names the tool which
reads it. -/

namespace PipelineShell.Script

/-- An argument has fewer bytes than this. -/
def argumentLimit : Nat := 131072

def runScript (l : Launch) (name : String) (args : List String) (script : String) : Output :=
  let p : Process :=
    ⟨l, l.env, name, args, l.input, .launched .stdout, .launched .stderr, [], false⟩
  (p.runStatements (statements script)).written.reverse

/-- The letters of the options in front of other arguments, and those arguments. A lone dash ends
the options. -/
def leadingOptions : List String → List Char × List String
  | [] => ([], [])
  | arg :: args =>
    if arg = "-" ∨ arg = "--" then ([], args)
    else if isOption arg then
      let (letters, rest) := leadingOptions args
      (arg.toList.drop 1 ++ letters, rest)
    else ([], arg :: args)

/-- Runs the tool that reads scripts. The first argument names one, after `-c` it is the text of
one, and without arguments the input is. Other options change nothing. -/
def runReader (l : Launch) (name : String) (args : List String) : Output :=
  let complain (trouble : String) : Output :=
    [(.stderr, Text.encode (name ++ ": 0: " ++ trouble ++ "\n"))]
  let (letters, args) := leadingOptions args
  match letters.find? fun c => !"abcefimnsuvxCEIV".contains c with
  | some c => complain ("Illegal option -" ++ c.toString)
  | none =>
    match letters.contains 'c', args with
    | true, script :: more => runScript l (more.headD name) (more.drop 1) script
    | true, [] => complain "-c requires an argument"
    | false, path :: more =>
      match l.tree.read l.dir path with
      | .ok bytes => runScript l path more (Text.decode bytes)
      | .error _ => complain ("cannot open " ++ path ++ ": No such file")
    | false, [] => runScript { l with input := .empty } name [] (Text.decode l.input)

def runTool (l : Launch) (tool name : String) (args : List String) : Output :=
  if tool = "sh" ∨ tool = "dash" then runReader l name args
  else
    match tools.lookup tool with
    | none => []
    | some run =>
      let w := run args ⟨name, l.tree, l.dir, l.input⟩
      let full := l.outputFull && !w.out.isEmpty
      let complaints := w.complaints ++ if full then noRoom tool name else []
      let errors := if complaints.isEmpty || l.errorsFull then []
        else [(Stream.stderr, Text.encode (String.join (complaints.map (· ++ "\n"))))]
      (if w.out.isEmpty || full then [] else [(Stream.stdout, w.out)]) ++ errors

def headSize : Nat := 256

def isGap (b : UInt8) : Bool := b == byte ' ' || b == byte '\t'

def dropGapEnd (line : Bytes) : Bytes :=
  (line.reverse.dropWhile isGap).reverse

/-- What a line names: a path, and one argument if more follows. Nothing counts after a zero. -/
def readerOn (line : Bytes) : Option (Bytes × Option Bytes) :=
  if line.isEmpty then none
  else
    let path := line.takeWhile fun b => !isGap b && b != 0
    match line.drop path.length with
    | b :: rest =>
      if isGap b then some (path, some ((rest.dropWhile isGap).takeWhile (· != 0)))
      else some (path, none)
    | [] => some (path, none)

/-- The tool and the argument that the first line of a script names, after its mark. A line that
does not end among the bytes looked at must have a gap after the name of the tool, which might be
cut off else. Zeros follow where the file has no more bytes. -/
def interpreter? (content : ByteArray) : Option (Bytes × Option Bytes) :=
  let found := (content.extract 0 headSize).toList
  match found ++ List.replicate (headSize - found.length) 0 with
  | m :: n :: rest =>
    if m != byte '#' || n != byte '!' then none
    else
      let line := rest.takeWhile fun b => b != byte '\n' && b != 0
      if rest[line.length]? = some (byte '\n') then
        readerOn (dropGapEnd (line.dropWhile isGap))
      else
        let more := rest.dropWhile isGap
        if more.any fun b => isGap b || b == 0 then readerOn (dropGapEnd more.dropLast) else none
  | _ => none

/-- How often a script may be read by another script. -/
def readerLimit : Nat := 6

/-- Runs the file at a path under a name, with arguments. The first argument bounds how many scripts
are read by others. -/
def runFile (l : Launch) : Nat → String → String → List String → Except Refusal Output
  | 0, _, _, _ => .error .linkLoop
  | readers + 1, path, name, args =>
    match l.tree.reach l.dir path with
    | .error r => .error r
    | .ok (_, .tool tool) => .ok (runTool l tool name args)
    | .ok (_, .file content true) =>
      match interpreter? content with
      | none => .error .badFormat
      | some (reader, more) =>
        let textOf (bs : Bytes) := Text.decode (ofBytes bs)
        let reader := textOf reader
        if reader.isEmpty then .error .denied
        else runFile l readers reader reader ((more.map textOf).toList ++ path :: args)
    | .ok _ => .error .denied

/-- The programs of the system and the scripts that they read. -/
def programs : Programs := fun l =>
  let texts := l.args ++ l.env.map fun v => v.1 ++ "=" ++ v.2
  if texts.any (argumentLimit ≤ ·.utf8ByteSize) then .error .argumentsTooLong
  else runFile l readerLimit l.path (l.args.headD "") (l.args.drop 1)

end PipelineShell.Script
