import PipelineShell.Program
import PipelineShell.Script.Statement
import PipelineShell.Script.Tool

/-! Running a script: its statements one after another, each command with the arguments, the
variables and the input of the process. -/

namespace PipelineShell.Script

/-- Where a stream of a process goes: to one of the streams it was launched with, or nowhere. -/
inductive Sink
  | launched (s : Stream)
  | nowhere
deriving DecidableEq

structure Process where
  launch : Launch
  vars : Environment
  name : String
  args : List String
  input : ByteArray
  output : Sink
  errors : Sink
  written : Output
  finished : Bool

namespace Process

def sink (p : Process) : Stream → Sink
  | .stdout => p.output
  | .stderr => p.errors

def setSink (p : Process) (s : Stream) (k : Sink) : Process :=
  match s with
  | .stdout => { p with output := k }
  | .stderr => { p with errors := k }

def isFull (p : Process) : Sink → Bool
  | .launched .stdout => p.launch.outputFull
  | .launched .stderr => p.launch.errorsFull
  | .nowhere => false

def emit (p : Process) (k : Sink) (bytes : ByteArray) : Process :=
  match k with
  | .launched s =>
    if bytes.isEmpty || p.isFull k then p else { p with written := (s, bytes) :: p.written }
  | .nowhere => p

def complain (p : Process) (lines : List String) : Process :=
  p.emit p.errors (Text.encode (String.join (lines.map (· ++ "\n"))))

def value (p : Process) (name : String) : String :=
  match name.toNat? with
  | some 0 => p.name
  | some n => p.args.getD (n - 1) ""
  | none =>
    if name = "#" then toString p.args.length
    else if name = "*" ∨ name = "@" then " ".intercalate p.args
    else (p.vars.get? name).getD ""

def fields (s : String) : List String :=
  ((s.toList.splitBy fun a b => a.isWhitespace == b.isWhitespace).filter fun w =>
    !(w.head?.map Char.isWhitespace).getD false).map String.ofList

/-- Words put after a word that is open: the first goes on with it, and the last stays open. -/
def attach (done : List String) (current : Option String) :
    List String → List String × Option String
  | [] => (done, current)
  | [w] => (done, some (current.getD "" ++ w))
  | w :: ws => ((done ++ [current.getD "" ++ w]) ++ ws.dropLast, ws.getLast?)

def expandFrom (p : Process) (done : List String) (current : Option String) :
    List Part → List String
  | [] => done ++ current.toList
  | .text s quoted :: parts =>
    if quoted || !s.isEmpty then expandFrom p done (some (current.getD "" ++ s)) parts
    else expandFrom p done current parts
  | .variable name quoted :: parts =>
    let words :=
      if name = "@" && quoted then p.args
      else if quoted then [p.value name]
      else fields (p.value name)
    let (done, current) := attach done current words
    expandFrom p done current parts

/-- The words that a word becomes. A word in marks that hold nothing is an empty one. -/
def expand (p : Process) (parts : List Part) : List String :=
  if parts.isEmpty then [""] else expandFrom p [] none parts

def assignment? (p : Process) : List Part → Option (String × String)
  | .text s false :: parts =>
    let cs := s.toList
    let name := cs.takeWhile Reader.isNameChar
    match cs.dropWhile Reader.isNameChar with
    | '=' :: rest =>
      if (name.head?.map Reader.isNameStart).getD false then
        some (String.ofList name,
          " ".intercalate (p.expandFrom [] none (.text (String.ofList rest) true :: parts)))
      else none
    | _ => none
  | _ => none

/-- The process with the redirections of a command. A file other than the null device is none that a
script here can write to. -/
def redirect (p : Process) (targets : List (Stream × Target)) : Process :=
  targets.foldl (fun p (s, t) => match t with
    | .stream other => p.setSink s (p.sink other)
    | .file _ => p.setSink s .nowhere) p

/-- The working directory as the process names it: by the variable where that is right. -/
def directory (p : Process) : String :=
  match p.launch.env.get? "PWD" with
  | some path =>
    match path.startsWith "/", p.launch.tree.enter p.launch.dir path with
    | true, .ok place => if place = p.launch.dir then path else Path.ofNames p.launch.dir
    | _, _ => Path.ofNames p.launch.dir
  | none => Path.ofNames p.launch.dir

/-- The text that a command of the script itself complains under. -/
def label (p : Process) (line : Nat) (command : String) : String :=
  p.name ++ ": " ++ toString line ++ ": " ++ command ++ ": "

/-- What a command of the script itself writes; none if it is no such command. -/
def ownCommand (p : Process) (line : Nat) (name : String) (args : List String) : Option Written :=
  let complaint (s : String) := p.label line name ++ s
  if name = "echo" then
    let (ending, args) : Bytes × List String := match args with
      | "-n" :: rest => ([], rest)
      | _ => ([10], args)
    let (bs, stop) := unescapeText (" ".intercalate args)
    some (.ofBytes (ofBytes (if stop then bs else bs ++ ending)))
  else if name = "printf" then
    let args := match args with
      | "--" :: rest => rest
      | _ => args
    match args with
    | [] => some ⟨.empty, [complaint "usage: printf format [arg ...]"]⟩
    | format :: args =>
      if format.startsWith "-" && format != "-" then
        let letter := String.ofList (((format.toList.drop 1).take 1).map asByte)
        some ⟨.empty, [complaint ("Illegal option -" ++ letter)]⟩
      else
        let (out, wrong) := printf format args
        some ⟨ofBytes out, wrong.map complaint⟩
  else if name = "pwd" then some (.ofBytes (Text.encode (p.directory ++ "\n")))
  else if name = "true" ∨ name = "false" ∨ name = ":" then some (.ofBytes .empty)
  else none

/-- Runs one command on some input. What it writes goes to a sink, or to the next command. -/
def runCommand (p : Process) (line : Nat) (words : List String) (input : ByteArray)
    (piped : Bool) : ByteArray × Process :=
  match words with
  | [] => (.empty, p)
  | name :: args =>
    let (w, own) := match p.ownCommand line name args with
      | some w => (w, true)
      | none =>
        match tools.lookup name with
        | some tool => (tool args ⟨name, p.launch.tree, p.launch.dir, input⟩, false)
        | none => (⟨.empty, [p.label line name ++ "not found"]⟩, true)
    let p := p.complain w.complaints
    if piped then (w.out, p)
    else if !w.out.isEmpty && p.isFull p.output then
      (.empty,
        p.complain
          (if own then [p.label line name ++ name ++ ": I/O error"] else noRoom name name))
    else (.empty, p.emit p.output w.out)

/-- The variables that the words at the front set, and the other words. -/
def settle (p : Process) : List (List Part) → Process × List (List Part)
  | [] => (p, [])
  | w :: ws =>
    match p.assignment? w with
    | some (name, value) => { p with vars := p.vars.set name value }.settle ws
    | none => (p, w :: ws)

/-- Runs a command with its redirections, and the rest of a pipeline after it. -/
def runStages (p : Process) (input : ByteArray) : List Simple → Process
  | [] => p
  | c :: rest =>
    let (set, words) := p.settle c.words
    let run := set.redirect c.targets
    match words.flatMap set.expand with
    | [] => set.runStages .empty rest
    | "exit" :: _ =>
      if rest.isEmpty then { set with finished := true } else set.runStages .empty rest
    | "exec" :: [] => if rest.isEmpty then run else set.runStages .empty rest
    | "exec" :: words =>
      { (run.runCommand c.line words input false).2 with finished := true }
    | words =>
      let (out, done) := run.runCommand c.line words input !rest.isEmpty
      let done := { done with output := p.output, errors := p.errors }
      done.runStages out rest

def runAll (p : Process) : List (List Simple) → Process
  | [] => p
  | stages :: rest => if p.finished then p else (p.runStages p.input stages).runAll rest

def runLoop (name : String) (body : List (List Simple)) : List String → Process → Process
  | [], p => p
  | item :: items, p =>
    runLoop name body items ({ p with vars := p.vars.set name item }.runAll body)

def runStatements (p : Process) : List Statement → Process
  | [] => p
  | .pipeline stages :: rest => (p.runAll [stages]).runStatements rest
  | .loop name items body :: rest =>
    (runLoop name body (items.flatMap p.expand) p).runStatements rest

end Process

end PipelineShell.Script
