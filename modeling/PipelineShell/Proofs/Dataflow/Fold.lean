import PipelineShell.Execution
import PipelineShell.Proofs.Redirected

/-! What a pipeline of builtins is meant to do, as a fold over its stages from the left. The text
that is pending passes from stage to stage; each builtin is called once, with its own arguments, and
a stage without a name hands on what it got or puts it into its target. -/

namespace PipelineShell

def Command.redirects (c : Command) (s : Stream) : Bool :=
  (c.redirection.get s).target.isSome

/-- The stages behind this one have a text to read, be it empty. A stage without a name and without
a target leaves that to the stages before it. -/
def Command.feeds (c : Command) : Bool :=
  !c.isEmpty || c.redirects .stdout

namespace Dataflow

open Shell

variable {τ : Type}

/-- What the stages so far have left: the shell, the text that is pending, and the open targets of
the stages without a name, the last opened first. -/
structure Current (τ : Type) where
  shell : Shell τ
  text : String
  targets : List BlockWriter

def Current.wired (x : Current τ) (w : Wiring) : Shell τ :=
  { x.shell with given := x.text, captured := "", wiring := w }

/-- One call of a builtin: the shell in which its handler began, what became of it, and the texts
that the handler wrote. -/
structure Call (τ : Type) where
  command : Command
  tag : τ
  entry : Shell τ
  result : EStateM.Result Failure (Shell τ) Bool
  said : List (Stream × String)

namespace Call

def after (k : Call τ) : Shell τ :=
  match k.result with
  | .ok _ s | .error _ s => s

def goesOn (k : Call τ) : Bool :=
  match k.result with
  | .ok b _ => b
  | .error _ _ => true

def complaint (k : Call τ) : String :=
  match k.result with
  | .ok _ _ => ""
  | .error f _ => k.command.name ++ ": " ++ f.message ++ "\n"

def report (k : Call τ) : Shell.Step τ Unit := do
  if let .error f _ := k.result then complain (k.command.name ++ ": " ++ f.message)
  flush (← get).wiring.stdout

end Call

def streams (fed last : Bool) : Wiring :=
  ⟨if fed then .given else .own, if last then .output else .captured, .errors⟩

/-- A builtin stage behind some stages. It reads the pending text if one of them feeds, and the
shell's own input otherwise. What it writes to its output is pending then, or goes to the shell's
output if it is the last, or to its target; what it writes to its errors, and the line that reports
how it failed, go to the shell's errors or to its target. -/
structure Called (e : Engine τ) (before : List Command) (last : Bool) (x : Current τ) (k : Call τ)
    (y : Current τ) : Prop where
  known : x.shell.registry.resolve k.command.name = .ok k.tag
  ran : e.handler k.tag k.command.args k.entry = k.result
  ordinary : ∀ f s, k.result ≠ .error (.shell f) s
  stdin : k.entry.wiring.stdin = if before.any Command.feeds then .given else .own
  given : k.entry.given = x.text
  input : k.entry.input = x.shell.input
  behind : k.entry.behind = x.shell.behind
  stdout : k.entry.wiring.stdout = if k.command.redirects .stdout then .file .stdout
    else if last then .output else .captured
  stderr : k.entry.wiring.stderr = if k.command.redirects .stderr then .file .stderr else .errors
  acts : Acts Around k.entry k.said k.after
  text : y.text = if k.command.redirects .stdout then "" else told .stdout k.said
  output : y.shell.output =
    x.shell.output.write (if last && !k.command.redirects .stdout then told .stdout k.said else "")
  errors : y.shell.errors = x.shell.errors.write
    (if k.command.redirects .stderr then "" else told .stderr k.said ++ k.complaint)
  targets : y.targets = x.targets
  whole : ∃ s t u,
    openTargets k.command.redirection (x.wired (streams (before.any Command.feeds) last)) =
      .ok () s ∧
    k.entry = { s with
      wiring := rewire k.command.redirection (streams (before.any Command.feeds) last) } ∧
    k.report k.after = .ok () t ∧
    closeTargets k.command.redirection { t with
      wiring := streams (before.any Command.feeds) last } = .ok () u ∧
    y.shell = { u with wiring := .own }

/-- A stage without a name. The text stays pending, or goes to the target of the stage and leaves an
empty one. -/
inductive Passed (r : Redirection) (x : Current τ) : Current τ → Prop
  | on {err : Option BlockWriter} {s t : Shell τ} (herr : openHeld r.stderr x.shell = .ok err s)
      (hout : openHeld r.stdout s = .ok none t) : Passed r x ⟨t, x.text, err.toList ++ x.targets⟩
  | into {err : Option BlockWriter} {w w' : BlockWriter} {s t : Shell τ} {tree : FileTree}
      (herr : openHeld r.stderr x.shell = .ok err s) (hout : openHeld r.stdout s = .ok (some w) t)
      (hw : BlockWriter.write (Text.encode x.text) (w, t.world.tree) = .ok () (w', tree)) :
      Passed r x ⟨{ t with world := { t.world with tree := tree } }, "",
        w' :: (err.toList ++ x.targets)⟩

/-- The stages behind some others, from the left to the right, with the calls that they make. -/
inductive Flows (e : Engine τ) :
    List Command → List Command → Current τ → List (Call τ) → Current τ → Prop
  | done (before : List Command) (x : Current τ) : Flows e before [] x [] x
  | pass {before cs : List Command} {c : Command} {x y z : Current τ} {calls : List (Call τ)}
      (hc : c.isEmpty = true) (h : Passed c.redirection x y)
      (hs : Flows e (before ++ [c]) cs y calls z) : Flows e before (c :: cs) x calls z
  | call {before cs : List Command} {k : Call τ} {x y z : Current τ} {calls : List (Call τ)}
      (hc : k.command.isEmpty = false) (h : Called e before cs.isEmpty x k y)
      (hs : Flows e (before ++ [k.command]) cs y calls z) :
      Flows e before (k.command :: cs) x (k :: calls) z

/-- The files let out what they hold, one after the other. -/
inductive Settles : List BlockWriter → FileTree → FileTree → Prop
  | nil (t : FileTree) : Settles [] t t
  | cons {w w' : BlockWriter} {ws : List BlockWriter} {t t' t'' : FileTree}
      (h : BlockWriter.flush (w, t) = .ok () (w', t')) (hs : Settles ws t' t'') :
      Settles (w :: ws) t t''

/-- What the stages leave for the shell's output, if the last of them let a text pass. -/
def leftover (stages : List Command) (text : String) : String :=
  if stages.getLast?.any Command.isEmpty then text else ""

/-- The end of the pipeline. What the last stage let pass is written to the shell's output, once,
and the targets of the stages without a name are closed. -/
structure Ends (stages : List Command) (y : Current τ) (s : Shell τ) : Prop where
  settles : Settles y.targets y.shell.world.tree s.world.tree
  shell : s = { y.shell with
    world := { y.shell.world with tree := s.world.tree }
    output := y.shell.output.write (leftover stages y.text) }

/-- All of a pipeline of builtins and stages without a name. One such stage alone does nothing. -/
def Runs (e : Engine τ) (p : Pipeline) (s : Shell τ) (calls : List (Call τ)) (s' : Shell τ) :
    Prop :=
  if p.isIdle then calls = [] ∧ s' = s
  else ∃ y, Flows e [] p.stages ⟨s, "", []⟩ calls y ∧ Ends p.stages y s'

end Dataflow

end PipelineShell
