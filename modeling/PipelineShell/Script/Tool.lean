import PipelineShell.FileTree.Walk
import PipelineShell.Script.Printf
import PipelineShell.Script.Sequence

/-! The tools of the system that scripts call: each turns its arguments and its input into what it
writes. -/

namespace PipelineShell.Script

/-- What a tool is given besides its arguments. It complains under the name it was called by. -/
structure Surroundings where
  name : String
  tree : FileTree
  dir : Location
  input : ByteArray

def Surroundings.hint (s : Surroundings) : String :=
  "Try '" ++ s.name ++ " --help' for more information."

structure Written where
  out : ByteArray
  complaints : List String

def Written.ofBytes (out : ByteArray) : Written := ⟨out, []⟩

def byteLines (b : ByteArray) : List Bytes :=
  let rec go : Bytes → Bytes → List Bytes → List Bytes
    | [], line, done => (if line.isEmpty then done else line.reverse :: done).reverse
    | x :: xs, line, done =>
      if x == 10 then go xs [] (line.reverse :: done) else go xs (x :: line) done
  go b.toList [] []

def ofBytes (bs : Bytes) : ByteArray := ⟨bs.toArray⟩

def fileBytes (s : Surroundings) (path : String) : Except Refusal ByteArray :=
  if path = "-" then .ok s.input else s.tree.read s.dir path

def allBytes (s : Surroundings) (files : List String) : Written :=
  if files.isEmpty then .ofBytes s.input
  else
    files.foldl (fun w path => match fileBytes s path with
      | .ok b => { w with out := w.out ++ b }
      | .error r =>
        let trouble := s.name ++ ": " ++ shownName path ++ ": " ++ r.text
        { w with complaints := w.complaints ++ [trouble] })
      ⟨.empty, []⟩

def isOption (arg : String) : Bool :=
  arg.startsWith "-" && arg != "-"

def runCat (args : List String) (s : Surroundings) : Written :=
  allBytes s (args.filter (!isOption ·))

/-- The bytes of a set, with ranges and escapes written out. -/
def setBytes : Nat → Bytes → Bytes
  | 0, _ => []
  | _, [] => []
  | n + 1, b :: bs =>
    let (first, rest) := if b == byte '\\' then
        match escape bs with
        | ([c], rest) => (c, rest)
        | (_, rest) => (b, rest)
      else (b, bs)
    match rest with
    | dash :: last :: more =>
      if dash == byte '-' && first ≤ last then
        (List.range (last.toNat - first.toNat + 1)).map (fun i => first + i.toUInt8) ++
          setBytes n more
      else first :: setBytes n rest
    | _ => first :: setBytes n rest

def setOf (s : String) : Bytes :=
  setBytes (s.utf8ByteSize + 1) (bytesOf s)

/-- What a byte becomes. The last byte of a short set stands for those that it lacks. -/
def mapped (source target : Bytes) (b : UInt8) : UInt8 :=
  match (source.zipIdx.filter fun p => p.1 == b).getLast? with
  | some (_, i) => target.getD i (target.getLastD b)
  | none => b

def runTr (args : List String) (s : Surroundings) : Written :=
  match args with
  | ["-d", set] =>
    let gone := setOf set
    .ofBytes (s.input.foldl (fun out b => if gone.contains b then out else out.push b) .empty)
  | [source, target] =>
    let (source, target) := (setOf source, setOf target)
    let table := ((List.range 256).map fun i => mapped source target i.toUInt8).toArray
    .ofBytes (s.input.foldl (fun out b => out.push (table.getD b.toNat b)) .empty)
  | _ => ⟨.empty, [s.name ++ ": missing operand", s.hint]⟩

def headEnd (b : ByteArray) (lines : Nat) (i : Nat) : Nat :=
  if _h : lines = 0 ∨ b.size ≤ i then i
  else headEnd b (if b[i]? = some 10 then lines - 1 else lines) (i + 1)
termination_by b.size - i

def runHead (args : List String) (s : Surroundings) : Written :=
  let (lines, files) := match args with
    | "-n" :: n :: files => (n.toNat?.getD 10, files)
    | files => (10, files)
  let w := allBytes s files
  { w with out := w.out.extract 0 (headEnd w.out lines 0) }

def countWords (b : ByteArray) : Nat :=
  (b.foldl (fun (n, inside) x =>
    let blank := x == 32 || (9 ≤ x && x ≤ 13)
    (if !blank && !inside then n + 1 else n, !blank)) (0, false)).1

def runWc (args : List String) (s : Surroundings) : Written :=
  let options := "".intercalate (args.filter isOption)
  let w := allBytes s (args.filter (!isOption ·))
  let counts := [
    ('l', w.out.foldl (fun n x => if x == 10 then n + 1 else n) 0),
    ('w', countWords w.out), ('c', w.out.size)]
  let chosen := if options.isEmpty then counts else counts.filter fun c => options.contains c.1
  let numbers := chosen.map fun c => toString c.2
  let text := match numbers with
    | [n] => n
    | ns => " ".intercalate (ns.map fun n => "".pushn ' ' (7 - n.length) ++ n)
  { w with out := Text.encode (text ++ "\n") }

def runSort (args : List String) (s : Surroundings) : Written :=
  let w := allBytes s (args.filter (!isOption ·))
  let options := "".intercalate (args.filter isOption)
  let sorted := (byteLines w.out).mergeSort fun a b => decide (a ≤ b)
  let sorted := if options.contains 'r' then sorted.reverse else sorted
  let sorted := if options.contains 'u' then sorted.eraseReps else sorted
  { w with out := ofBytes (sorted.flatMap (· ++ [10])) }

def runSeq (args : List String) (s : Surroundings) : Written :=
  match sequence args with
  | .ok lines => .ofBytes (lines.foldl (fun out line => out ++ ofBytes (line ++ [10])) .empty)
  | .error trouble => ⟨.empty, [s.name ++ ": " ++ trouble, s.hint]⟩

def tools : List (String × (List String → Surroundings → Written)) := [
  ("cat", runCat), ("tr", runTr), ("head", runHead), ("wc", runWc), ("sort", runSort),
  ("seq", runSeq)]

/-- The lines with which a tool, called by a name, complains that its output has no room. -/
def noRoom (tool name : String) : List String :=
  let why := Refusal.noSpace.text
  let trouble := name ++ ": write error"
  if tool = "wc" then [trouble]
  else if tool = "sort" then [name ++ ": fflush failed: 'standard output': " ++ why, trouble]
  else [trouble ++ ": " ++ why]

end PipelineShell.Script
