import PipelineShell.Proofs.Conduct.Effects
import PipelineShell.Proofs.Transparency.Diversion

/-! Which builtins read the shell's own input. One does, if no file is named for it, and then it
reads all that is left; no other does, nor does any where a text is given to it instead. -/

namespace PipelineShell

namespace Shell

variable {τ α : Type} {s t : Shell τ}

structure SameInput (s t : Shell τ) : Prop where
  input : t.input = s.input
  behind : t.behind = s.behind

instance : IsPreorder (Shell τ) SameInput where
  refl _ := ⟨rfl, rfl⟩
  trans _ _ _ h h' := ⟨h'.input.trans h.input, h'.behind.trans h.behind⟩

theorem SameInput.remaining (h : SameInput s t) : t.remaining = s.remaining := by
  rw [Shell.remaining, h.input, h.behind, Shell.remaining]

theorem SameInput.drawn (h : SameInput s t) (amount : Nat) :
    SameInput (Job.drawn s amount) (Job.drawn t amount) := by
  unfold Job.drawn
  rw [h.behind]
  cases s.behind with
  | none => exact ⟨rfl, rfl⟩
  | some text => exact ⟨h.input, rfl⟩

theorem WorksOn.sameInput (h : WorksOn s t) : SameInput s t :=
  ⟨h.input, h.behind⟩

structure ReadsUp (s t : Shell τ) : Prop where
  input : t.input = ""
  behind : t.behind = s.behind.map fun _ => ""

theorem ReadsUp.congr {s' t' : Shell τ} (h : ReadsUp s t) (hs : SameInput s' s)
    (ht : SameInput t t') : ReadsUp s' t' where
  input := ht.input.trans h.input
  behind := by rw [ht.behind, h.behind, hs.behind]

/-- A text has been drawn from the input: all that was left of it, or else what a process took of
the file that it comes from, behind what had been read ahead. -/
inductive Drawn (s : Shell τ) (text : String) (t : Shell τ) : Prop
  | whole (htext : text = s.remaining) (hreads : ReadsUp s t)
  | part {rest : String} (hinput : t.input = s.input) (hbefore : s.behind = some (text ++ rest))
      (hbehind : t.behind = some rest)

/-- What was drawn parts what is left before it from what is left after it. -/
theorem Drawn.split {text : String} (h : Drawn s text t) : ∃ kept rest,
    s.remaining = kept ++ text ++ rest ∧ t.remaining = kept ++ rest ∧
      (s.behind = none → kept = "") := by
  cases h with
  | whole htext hreads =>
    refine ⟨"", "", by simp [htext], ?_, fun _ => rfl⟩
    rw [remaining, hreads.input, hreads.behind]
    cases s.behind <;> rfl
  | @part rest hinput hbefore hbehind =>
    refine ⟨s.input, rest, ?_, ?_, fun hnone => ?_⟩
    · rw [remaining, hbefore, Option.getD_some, String.append_assoc]
    · rw [remaining, hinput, hbehind, Option.getD_some]
    · rw [hnone] at hbefore
      cases hbefore

theorem Drawn.congr {s' t' : Shell τ} {text : String} (h : Drawn s text t) (hs : SameInput s' s)
    (ht : SameInput t t') : Drawn s' text t' := by
  cases h with
  | whole htext hreads => exact .whole (htext.trans hs.remaining) (hreads.congr hs ht)
  | part hinput hbefore hbehind =>
    exact .part ((ht.input.trans hinput).trans hs.input) (hs.behind ▸ hbefore)
      (ht.behind.trans hbehind)

theorem sameInput_line (stream : Stream) (text : String) :
    Attempt.Keeps SameInput (printLine stream text : Shell.Step τ Unit) :=
  (worksOn_printLine stream text).mono fun _ _ => WorksOn.sameInput

theorem sameInput_write (text : String) :
    Attempt.Keeps SameInput (write text : Shell.Step τ Unit) :=
  (worksOn_write text).mono fun _ _ => WorksOn.sameInput

/-- Wired to a given text, the shell reads that and leaves its own input alone. -/
def GivenOnly (s t : Shell τ) : Prop :=
  s.wiring.stdin = .given → t.wiring = s.wiring ∧ SameInput s t

instance : IsPreorder (Shell τ) GivenOnly where
  refl s _ := ⟨rfl, refl_of SameInput s⟩
  trans _ _ _ h h' hs := by
    obtain ⟨hw, hi⟩ := h hs
    obtain ⟨hw', hi'⟩ := h' (hw ▸ hs)
    exact ⟨hw'.trans hw, trans_of SameInput hi hi'⟩

theorem Rests.givenOnly (h : Rests s t) (hi : SameInput s t) : GivenOnly s t :=
  fun _ => ⟨h.wiring, hi⟩

theorem Reaches.givenOnly (h : Reaches Roams s t) : GivenOnly s t := by
  obtain ⟨said, hacts⟩ := h
  refine hacts.keeps (fun s stream text => ?_) (fun s hs => ?_) fun s t h => ?_
  · exact (rests_writeTo _ text s).givenOnly (worksOn_writeTo _ text s).sameInput
  · rw [final_readAll, hs]
    exact ⟨rfl, rfl, rfl⟩
  · exact h.rests.givenOnly ⟨by rw [h], by rw [h]⟩

end Shell

namespace Builtin

open Shell

variable {τ : Type}

theorem sameInput_run {b : Builtin} {args : List String} (h : ¬(b = .cat ∧ args = [])) :
    Attempt.Keeps SameInput (b.run args : Shell.Step τ Bool) :=
  keeps_run ⟨fun _ _ => WorksOn.sameInput, fun hb ha => absurd ⟨hb, ha⟩ h, fun _ _ _ _ => ⟨rfl, rfl⟩,
    fun _ _ _ => ⟨rfl, rfl⟩⟩

theorem readsUp_runCat {s : Shell τ} (hs : s.wiring.stdin = .own) :
    ReadsUp s ((runCat [] : Shell.Step τ Bool).final s) := by
  have hcat : (runCat [] : Shell.Step τ Bool) = readAll >>= fun text =>
      write text >>= fun _ => pure Bool.true := rfl
  have hwrite := ((sameInput_write s.toRead).bind fun _ => Attempt.keeps_pure Bool.true)
    (readAll.final s)
  rw [hcat, Attempt.final_bind_of_ok (readAll_apply s)]
  refine ⟨hwrite.input.trans ?_, hwrite.behind.trans ?_⟩ <;> rw [final_readAll, hs]

end Builtin

theorem Engine.onlyRoams_of_run {e : Engine Builtin} (he : e.handler = Builtin.run) :
    e.OnlyRoams := by
  obtain ⟨handler, programs, chunkSize, host⟩ := e
  subst he
  exact Builtin.onlyRoams programs chunkSize host

namespace Shell

variable {τ : Type} {e : Engine τ} {tag : τ} {c : Command} {s t : Shell τ}

theorem sameInput_invoke_of_given (he : e.OnlyRoams) (hs : s.wiring.stdin = .given) :
    SameInput s ((invoke e tag c).final s) := by
  by_cases h : ∃ t, openTargets c.redirection s = .ok () t
  · obtain ⟨t, ht⟩ := h
    have hopen := (keeps_openTargets _).ok ht
    have hgiven : (rewire c.redirection t.wiring).stdin = .given := by
      rw [hopen.wiring]
      exact hs
    have hread := ((he tag c.args).mono (fun _ _ => Reaches.givenOnly)
      { t with wiring := rewire c.redirection t.wiring } hgiven).2
    have hopened : SameInput s t := ⟨hopen.input, hopen.behind⟩
    have hentry : SameInput t { t with wiring := rewire c.redirection t.wiring } := ⟨rfl, rfl⟩
    exact trans_of SameInput (trans_of SameInput (trans_of SameInput hopened hentry) hread)
      (worksOn_invoke ht).sameInput
  · exact (worksOn_invoke_of_unopened fun t ht => h ⟨t, ht⟩).sameInput

end Shell

end PipelineShell
