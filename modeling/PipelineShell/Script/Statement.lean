import PipelineShell.Script.Token

/-! The statements of a script: pipelines of commands, and loops over words. -/

namespace PipelineShell.Script

inductive Target
  | stream (s : Stream)
  | file (parts : List Part)
deriving DecidableEq

structure Simple where
  line : Nat
  words : List (List Part)
  targets : List (Stream × Target)
deriving DecidableEq

inductive Statement
  | pipeline (stages : List Simple)
  | loop (name : String) (items : List (List Part)) (body : List (List Simple))
deriving DecidableEq

def lines : Nat → List Token → List Token → List (Nat × List Token)
  | n, done, [] => [(n, done.reverse)]
  | n, done, .newline :: ts => (n, done.reverse) :: lines (n + 1) [] ts
  | n, done, .semicolon :: ts => (n, done.reverse) :: lines n [] ts
  | n, done, t :: ts => lines n (t :: done) ts

def keyword? : List Part → Option String
  | [.text s false] => some s
  | _ => none

/-- The commands of a line. Each arrow takes the word after it. -/
def commands (line : Nat) : List Token → Simple → List Simple
  | [], c => [c]
  | .bar :: ts, c => c :: commands line ts ⟨line, [], []⟩
  | .into s :: .ampersand :: .word [.text "1" false] :: ts, c =>
    commands line ts { c with targets := c.targets ++ [(s, .stream .stdout)] }
  | .into s :: .ampersand :: .word [.text "2" false] :: ts, c =>
    commands line ts { c with targets := c.targets ++ [(s, .stream .stderr)] }
  | .into s :: .into .stdout :: .word parts :: ts, c =>
    commands line ts { c with targets := c.targets ++ [(s, .file parts)] }
  | .into s :: .word parts :: ts, c =>
    commands line ts { c with targets := c.targets ++ [(s, .file parts)] }
  | .word parts :: ts, c => commands line ts { c with words := c.words ++ [parts] }
  | _ :: ts, c => commands line ts c

def pipelineOf (line : Nat) (ts : List Token) : List (List Simple) :=
  if ts.isEmpty then [] else [commands line ts ⟨line, [], []⟩]

def wordsOf (ts : List Token) : List (List Part) :=
  ts.filterMap fun t => match t with
    | .word parts => some parts
    | _ => none

/-- The statements of the lines. Within a loop its head is carried along, with the lines of its
body so far. -/
def statementsOf :
    List (Nat × List Token) → Option (String × List (List Part) × List (List Simple)) →
      List Statement
  | [], none => []
  | [], some (name, items, body) => [.loop name items body]
  | (n, ts) :: rest, none =>
    match ts with
    | .word head :: .word name :: .word inWord :: items =>
      if keyword? head = some "for" ∧ keyword? inWord = some "in" then
        statementsOf rest (some ((keyword? name).getD "", wordsOf items, []))
      else (pipelineOf n ts).map .pipeline ++ statementsOf rest none
    | _ => (pipelineOf n ts).map .pipeline ++ statementsOf rest none
  | (n, ts) :: rest, some (name, items, body) =>
    match ts with
    | .word head :: more =>
      if keyword? head = some "done" then .loop name items body :: statementsOf rest none
      else if keyword? head = some "do" then
        statementsOf rest (some (name, items, body ++ pipelineOf n more))
      else statementsOf rest (some (name, items, body ++ pipelineOf n ts))
    | _ => statementsOf rest (some (name, items, body))

def statements (script : String) : List Statement :=
  statementsOf (lines 1 [] (tokens script)) none

end PipelineShell.Script
