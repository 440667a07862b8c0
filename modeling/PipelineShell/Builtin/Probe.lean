import PipelineShell.Shell
import PipelineShell.Text.Integer
import PipelineShell.Text.Literal
import PipelineShell.Text.Upper

/-! Commands that try out a pipeline from within: they change or count what they are given, fail in
the ways in which a builtin can fail, or stop the shell. -/

namespace PipelineShell

inductive Probe
  | upper
  | boom
  | refuse
  | stop
  | both
  | repeated
  | count
deriving DecidableEq

namespace Probe

variable {τ : Type}

def named : List (String × Probe) := [
  ("upper", upper), ("boom", boom), ("refuse", refuse), ("nil", stop), ("both", both),
  ("rep", repeated), ("count", count)]

def missingArgument : String := "list index out of range"

def dropSign : List Char → List Char
  | '-' :: cs => cs
  | '+' :: cs => cs
  | cs => cs

/-- Why a text is no number that can be used. -/
def numberTrouble (text : String) : String :=
  match Text.digits? (dropSign (Text.dropMargins text.toList)) false with
  | some digits =>
    "Exceeds the limit (4300 digits) for integer string conversion: value has " ++
      toString digits.length ++
      " digits; use sys.set_int_max_str_digits() to increase the limit"
  | none =>
    "invalid literal for int() with base 10: " ++
      String.ofList ((Text.literal text).toList.take 200)

/-- How far a text may be counted: one less than this, and as far below zero. -/
def indexLimit : Int := Int.pow 2 63

/-- A text of this many characters finds no room. -/
def roomLimit : Nat := Nat.pow 2 36

def repeatText (n : Int) (text : String) : Except String String :=
  let size := n.toNat * text.length
  if n < -indexLimit ∨ indexLimit ≤ n then
    .error "cannot fit 'int' into an index-sized integer"
  else if indexLimit ≤ size then .error "repeated string is too long"
  else if roomLimit ≤ size then .error ""
  else if text.isEmpty then .ok ""
  else .ok (n.toNat.fold (fun _ _ s => s ++ text) "")

def runRepeated : Handler τ
  | n :: text :: _ =>
    match Text.integer? n with
    | some n =>
      match repeatText n text with
      | .ok all => do
        Shell.write all
        pure true
      | .error trouble => throw (.other trouble)
    | none => throw (.other (numberTrouble n))
  | _ => throw (.other missingArgument)

def run : Probe → Handler τ
  | upper => fun _ => do
    Shell.write (Text.upper (← Shell.readAll))
    pure true
  | boom => fun args => do
    Shell.write "partial"
    throw (.other (Text.joined " " args))
  | refuse => fun args => do
    Shell.write "before"
    match args with
    | [] => throw (.other missingArgument)
    | name :: _ => throw (.shell (.unknownCommand name))
  | stop => fun _ => pure false
  | both => fun _ => do
    Shell.say "out"
    Shell.complain "err"
    pure true
  | repeated => runRepeated
  | count => fun _ => do
    Shell.say (toString (← Shell.readAll).length)
    pure true

end Probe

end PipelineShell
