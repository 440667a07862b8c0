import PipelineShell.Word

/-! Redirections: where the output and the error text of a stage go instead of the shell's own. The
operators are words of the command line and are taken out of it together with their targets. -/

namespace PipelineShell

/-- The two texts that a stage writes. -/
inductive Stream
  | stdout
  | stderr
deriving DecidableEq

/-- Where one of them goes. The flag says that the target keeps what it holds. -/
structure Destination where
  target : Option String
  append : Bool
deriving DecidableEq

structure Redirection where
  stdout : Destination
  stderr : Destination
deriving DecidableEq

namespace Redirection

def none : Redirection := ⟨⟨Option.none, false⟩, ⟨Option.none, false⟩⟩

def get (r : Redirection) : Stream → Destination
  | .stdout => r.stdout
  | .stderr => r.stderr

def set (r : Redirection) (s : Stream) (d : Destination) : Redirection :=
  match s with
  | .stdout => { r with stdout := d }
  | .stderr => { r with stderr := d }

end Redirection

/-- The stream that an operator redirects, and whether it appends. -/
def operatorOf (text : String) : Option (Stream × Bool) :=
  if text = ">" ∨ text = "1>" then some (.stdout, false)
  else if text = ">>" ∨ text = "1>>" then some (.stdout, true)
  else if text = "2>" then some (.stderr, false)
  else if text = "2>>" then some (.stderr, true)
  else none

/-- A quoted word is no operator. -/
def Word.operator? (w : Word) : Option (Stream × Bool) :=
  if w.quoted then none else operatorOf w.text

/-- The plain words, and the redirection after the one given. Each operator takes the word after
it, whatever that is; the last one of a stream counts, and one at the end is dropped. -/
def Redirection.collect : List Word → Redirection → List String × Redirection
  | [], r => ([], r)
  | w :: ws, r =>
    match w.operator? with
    | Option.none => (w.text :: (collect ws r).1, (collect ws r).2)
    | some (s, append) =>
      match ws with
      | [] => ([], r)
      | t :: rest => collect rest (r.set s ⟨some t.text, append⟩)

/-- The words that redirect a stream again, with the operator given. -/
def Destination.words (d : Destination) (truncating appending : String) : List String :=
  match d.target with
  | some t => [if d.append then appending else truncating, quote t]
  | none => []

def Redirection.words (r : Redirection) : List String :=
  r.stdout.words ">" ">>" ++ r.stderr.words "2>" "2>>"

end PipelineShell
