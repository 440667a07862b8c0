import PipelineShell.Proofs.Conduct.Builtins
import PipelineShell.Proofs.Transparency.Diversion
import PipelineShell.Session

/-! No builtin sees where its output leads or raises a failure of the shell's own. Neither do the
commands that try out pipelines see it. -/

namespace PipelineShell

theorem Failure.IsFault.ne_shell {f : Failure} (h : f.IsFault) (g : ShellFailure) :
    f ≠ .shell g := by
  obtain ⟨fault, rfl⟩ := h
  simp

namespace Shell

variable {τ α : Type} {P : Failure → Prop} {x : Shell.Step τ α}

theorem Full.isFault {f : Failure} (h : Full f) : f.IsFault :=
  ⟨_, h⟩

theorem Plain.blind (h : Plain P x) : Blind x := by
  induction h with
  | done a => exact blind_pure a
  | fail h => exact blind_throw _
  | write text => exact blind_write text
  | line stream text => exact blind_printLine stream text
  | read => exact blind_readAll
  | roam change h => exact blind_modify (fun _ _ _ => rfl) (fun _ => rfl) fun _ => rfl
  | look hsame hf ih => exact blind_get (fun base kept s => hsame s _ base kept) ih
  | bind hx hf ihx ihf => exact ihx.bind ihf
  | handle hx hh ihx ihh => exact ihx.handle ihh

theorem Plain.throws (h : Plain P x) (hfull : ∀ f, Full f → P f) : Attempt.Throws P x := by
  have hwrite : ∀ o text, Attempt.Throws P (writeTo o text : Shell.Step τ Unit) :=
    fun o text => (throws_writeTo o text).mono hfull
  induction h with
  | done a => exact Attempt.throws_pure _
  | fail h => exact Attempt.throws_throw h
  | write text => exact Attempt.throws_get.bind fun _ => hwrite _ _
  | line stream text =>
    exact Attempt.throws_get.bind fun _ => (hwrite _ _).bind fun _ => hwrite _ _
  | read =>
    intro s f t h
    rw [readAll_apply] at h
    cases h
  | roam change h => exact Attempt.throws_modify _
  | look hsame hf ih => exact Attempt.throws_get.bind ih
  | bind hx hf ihx ihf => exact ihx.bind ihf
  | handle hx hh ihx ihh => exact ihx.handle ihh

end Shell

open Shell

/-- The builtins do not see where their output leads. -/
def Engine.Blind {τ : Type} (e : Engine τ) : Prop :=
  ∀ tag args, Shell.Blind (e.handler tag args)

theorem Builtin.blind (programs : Programs) (chunkSize : Int) (host : Host) :
    (⟨Builtin.run, programs, chunkSize, host⟩ : Engine Builtin).Blind :=
  fun b args => (plain_run b args).blind

theorem Builtin.faults_run {τ : Type} (b : Builtin) (args : List String) :
    Attempt.Throws Failure.IsFault (b.run args : Shell.Step τ Bool) :=
  (plain_run b args).throws fun _ => Full.isFault

namespace Probe

variable {τ : Type}

theorem plain_runRepeated (args : List String) :
    Plain (fun _ => True) (runRepeated args : Shell.Step τ Bool) := by
  unfold runRepeated
  split
  · split
    · split
      · exact (Plain.write _).returning _
      · exact .fail trivial
    · exact .fail trivial
  · exact .fail trivial

theorem plain_run (p : Probe) (args : List String) :
    Plain (fun _ => True) (p.run args : Shell.Step τ Bool) := by
  cases p with
  | upper => exact Plain.read.bind fun _ => (Plain.write _).returning _
  | boom => exact (Plain.write _).bind fun _ => .fail trivial
  | refuse =>
    cases args with
    | nil => exact (Plain.write _).bind fun _ => .fail trivial
    | cons name args => exact (Plain.write _).bind fun _ => .fail trivial
  | stop => exact .done _
  | both => exact (Plain.line _ _).bind fun _ => (Plain.line _ _).returning _
  | repeated => exact plain_runRepeated args
  | count => exact Plain.read.bind fun _ => (Plain.line _ _).returning _

end Probe

namespace Session

variable (programs : Programs) (chunkSize : Int) (host : Host)

theorem onlyRoams_runCommand :
    (⟨runCommand, programs, chunkSize, host⟩ : Engine CommandTag).OnlyRoams := by
  intro tag args
  cases tag with
  | inl b => exact (Builtin.plain_run b args).keeps
  | inr p => exact (Probe.plain_run p args).keeps

end Session

end PipelineShell
