import PipelineShell.Proofs.Abort.Causes
import PipelineShell.Proofs.Holdings.Jobs
import PipelineShell.Proofs.Transparency.Builtins
import PipelineShell.Proofs.Transparency.Calls
import PipelineShell.Proofs.Transparency.Decoding

/-! The last stage of a pipeline, and the same stage with one after it. What the one writes to the
shell's own output is pending after the other. -/

namespace PipelineShell

open Shell

namespace Job

variable {τ : Type} {e : Engine τ} {c : Command} {base : Console} {j x y : Job τ}

def leftText (j : Job τ) : String :=
  match j.pending with
  | .nothing => ""
  | .text s => s
  | .stream _ pieces => Text.decodePieces pieces

theorem exists_emit_eq (hw : j.shell.wiring = .own) : ∃ j', emit j = .ok () j' ∧
    j'.shell = { j.shell with output := j.shell.output.write j.leftText } ∧
    j'.files = j.files ∧ j'.keepGoing = j.keepGoing ∧ ∀ room, j'.Stuck room ↔ j.Stuck room := by
  have hout : j.shell.wiring.stdout = .output := by rw [hw]; rfl
  rw [emit_eq, Attempt.bind_of_ok (Attempt.get_apply _), hout]
  unfold leftText
  obtain ⟨shell, pending⟩ := j
  cases pending with
  | nothing => exact ⟨_, rfl, by simp, rfl, rfl, fun _ => Iff.rfl⟩
  | text s => exact ⟨_, rfl, rfl, rfl, rfl, fun _ => Iff.rfl⟩
  | stream pipe pieces => exact ⟨_, rfl, rfl, rfl, rfl, fun _ => Iff.rfl⟩

/-- Two jobs that differ at most in what has come to the output or is kept, and in who works for
them. -/
structure Akin (x y : Job τ) : Prop where
  shell : y.shell = { x.shell with output := y.shell.output, captured := y.shell.captured }
  files : y.files = x.files
  keepGoing : y.keepGoing = x.keepGoing

/-- Besides, they wait for ever or not. -/
structure Twin (x y : Job τ) : Prop extends Akin x y where
  stuck : ∀ room, y.Stuck room ↔ x.Stuck room

theorem Twin.rfl {j : Job τ} : Twin j j :=
  ⟨⟨Eq.refl _, Eq.refl _, Eq.refl _⟩, fun _ => Iff.rfl⟩

/-- What has come to the output of the one job is pending in the other. -/
structure Passed (base : Console) (x y : Job τ) : Prop where
  wiring : x.shell.wiring = .own
  output : ∃ pieces, x.shell.output.write x.leftText = base.receive pieces ∧
    y.shell.output.write y.leftText = base.write (Text.decodePieces pieces)

structure Handed (base : Console) (x y : Job τ) : Prop extends Twin x y, Passed base x y

/-- The same has come to the output of both jobs, but to the second one as text. -/
structure Delivered (base : Console) (x y : Job τ) : Prop extends Twin x y where
  output : ∃ pieces, x.shell.output = base.receive pieces ∧
    y.shell.output = base.write (Text.decodePieces pieces)

/-- What has come to the output of the one job is lost in the other. -/
structure Lost (base : Console) (x y : Job τ) : Prop extends Twin x y where
  kept : ∃ text, x.shell.output = base.write text
  lost : y.shell.output = base

theorem lost_self (h : j.shell.output = base) : Lost base j j :=
  ⟨Twin.rfl, ⟨"", by simp [h]⟩, h⟩

theorem agree_emit (h : Handed base x y) :
    Attempt.Agree (Delivered base) (Lost base) (emit x) (emit y) := by
  have hy : y.shell.wiring = .own := by rw [h.shell]; exact h.wiring
  obtain ⟨pieces, hx', hy'⟩ := h.output
  obtain ⟨x', hemit, hshell, hfiles, hgo, hstuck⟩ := exists_emit_eq h.wiring
  obtain ⟨y', hemit', hshell', hfiles', hgo', hstuck'⟩ := exists_emit_eq hy
  rw [hemit, hemit']
  refine .ok ⟨⟨⟨?_, ?_, ?_⟩, fun room => ?_⟩, pieces, ?_, ?_⟩
  · rw [hshell', hshell, h.shell]
  · rw [hfiles', hfiles, h.files]
  · rw [hgo', hgo, h.keepGoing]
  · rw [hstuck', hstuck, h.stuck]
  · rw [hshell]
    exact hx'
  · rw [hshell']
    exact hy'

/-- The same job in both runs, with nothing new in the output. -/
structure Even (base : Console) (x y : Job τ) : Prop where
  same : x = y
  wiring : x.shell.wiring = .own
  output : x.shell.output = base
  accounted : x.Accounted []

theorem Even.lost (h : Even base x y) : Lost base x y := by
  obtain ⟨rfl, -, hout, -⟩ := h
  exact lost_self hout

theorem agree_of_withholds {α : Type} {step : Job.Step τ α} (hstep : Attempt.Keeps Withholds step)
    (haccounts : Accounts step) (h : Even base x y) :
    Attempt.Agree (Even base) (Lost base) (step x) (step y) := by
  obtain ⟨rfl, hw, hout, haccounted⟩ := h
  cases hx : step x with
  | ok a x' =>
    have hkept := hstep.ok hx
    have htold := haccounts [] x haccounted
    rw [Attempt.final_of_ok hx] at htold
    exact .ok ⟨rfl, hkept.wiring.trans hw, (hkept.output hw).trans hout, htold⟩
  | error f x' => exact .error (lost_self (((hstep.error hx).output hw).trans hout))

theorem handed_of_even (h : Even base x y) : Handed base x y := by
  obtain ⟨rfl, hw, hout, -⟩ := h
  refine ⟨Twin.rfl, ⟨hw, [Text.encode x.leftText], ?_, ?_⟩⟩
  · rw [hout, Console.receive_encode]
  · rw [hout, Text.decodePieces_encode]

theorem agree_runEmpty (r : Redirection) (h : Even base x y) :
    Attempt.Agree (Handed base) (Lost base) (runEmpty e r x) (runEmpty e r y) := by
  have hsame := agree_of_withholds (withholds_runEmpty (e := e) r) (accounts_runEmpty r) h
  generalize runEmpty e r x = v at hsame
  generalize runEmpty e r y = w at hsame
  cases hsame with
  | ok h => exact .ok (handed_of_even h)
  | error h => exact .error h

/-! A process that starts has other pipes if it writes to the shell's own output, and nothing else
comes of that. -/

/-- The two jobs are the same but for their processes, helpers and pipes in use. -/
structure Alike (x y : Job τ) : Prop where
  shell : y.shell = x.shell
  pending : y.pending = x.pending
  keepGoing : y.keepGoing = x.keepGoing
  files : y.files = x.files

theorem Alike.refl (j : Job τ) : Alike j j :=
  ⟨rfl, rfl, rfl, rfl⟩

theorem Alike.of_aside {x' y' : Job τ} (h : Alike x y) (hx : Aside x x') (hy : Aside y y') :
    Alike x' y' :=
  ⟨by rw [hy.shell, hx.shell, h.shell], by rw [hy.pending, hx.pending, h.pending],
    by rw [hy.keepGoing, hx.keepGoing, h.keepGoing], by rw [hy.files, hx.files, h.files]⟩

/-- Two steps that begin in such jobs cannot fail, and end in such jobs. -/
def Alongside (v w : EStateM.Result Failure (Job τ) Unit) : Prop :=
  Attempt.Agree Alike (fun _ _ => False) v w

theorem alongside_noted {s t : Job.Step τ Unit} (hs : Noted s) (ht : Noted t) (h : Alike x y) :
    Alongside (s x) (t y) := by
  obtain ⟨_, x', hx, haside⟩ := hs x
  obtain ⟨_, y', hy, haside'⟩ := ht y
  rw [hx, hy]
  exact .ok (h.of_aside haside haside')

theorem alongside_discard_putAll (n : Nat) (pieces : List ByteArray) (h : Alike x y) :
    Alongside (discard (putAll n pieces) x) (discard (putAll n pieces) y) := by
  simp only [Attempt.discard_apply]
  induction pieces generalizing x y with
  | nil => exact .ok h
  | cons piece pieces ih =>
    have hfile : y.file? n = x.file? n := congrArg (List.lookup n) h.files
    have hset : ∀ w t, Alike (x.setFile n w t) (y.setFile n w t) := fun w t =>
      ⟨congrArg (fun s : Shell τ => s.setTree t) h.shell, h.pending, h.keepGoing,
        congrArg (List.map _) h.files⟩
    simp only [putAll_cons_apply, onFile, hfile, h.shell]
    cases x.file? n with
    | none => exact ih h
    | some w =>
      dsimp only
      cases BlockWriter.put piece (w, x.shell.world.tree) with
      | ok a p => exact ih (hset _ _)
      | error f p => exact .ok (hset _ _)

theorem alongside_writeOutput (out err : Option Nat) (output : Output) (h : Alike x y) :
    Alongside (writeOutput out err output x) (writeOutput out err output y) := by
  induction output generalizing x y with
  | nil => exact .ok h
  | cons p output ih =>
    obtain ⟨_ | _, bytes⟩ := p <;> cases out <;> cases err <;>
      first
        | exact (alongside_discard_putAll _ _ h).bind fun _ _ _ h => ih h
        | exact ih h

theorem alongside_feed (input input' : Option Nat) (amount : Nat) (h : Alike x y) :
    Alongside (feed input amount x) (feed input' amount y) := by
  unfold feed
  rw [Attempt.bind_of_ok (Attempt.get_apply _), Attempt.bind_of_ok (Attempt.get_apply _), h.pending]
  have hserve : ∀ {x y : Job τ}, Alike x y → Alongside (serve input x) (serve input' y) :=
    fun h => alongside_noted (noted_serve input) (noted_serve input') h
  cases x.pending with
  | nothing =>
    exact hserve ⟨congrArg (drawn · amount) h.shell, h.pending, h.keepGoing, h.files⟩
  | text s => exact hserve ⟨h.shell, rfl, h.keepGoing, h.files⟩
  | stream pipe pieces =>
    have hclaimed : Alongside (claim pipe .relay x) (claim pipe .relay y) :=
      .ok ⟨h.shell, rfl, h.keepGoing, h.files⟩
    exact hclaimed.bind fun _ _ _ h => (hserve h).bind fun _ _ _ h =>
      alongside_noted (noted_closePipe pipe) (noted_closePipe pipe) h

theorem alongside_receive (s : Stream) (pipe pipe' : Option Nat) (pieces : List ByteArray)
    (h : Alike x y) : Alongside (receive s pipe pieces x) (receive s pipe' pieces y) := by
  refine Attempt.Agree.bind (R := Alike) (.ok ⟨?_, h.pending, h.keepGoing, h.files⟩)
    fun _ _ _ h => alongside_noted (noted_serve pipe) (noted_serve pipe') h
  dsimp only
  rw [h.shell]

theorem agree_handOn (out : Option Nat) {pipe pipe' : Option Nat} (pieces : List ByteArray)
    (hpipe : pipe'.isSome = out.isNone) (h : Alike x y) (hw : x.shell.wiring = .own)
    (hout : x.shell.output = base) :
    Attempt.Agree (fun x y => Akin x y ∧ Passed base x y) (fun _ _ => False)
      (handOn true out pipe pieces x) (handOn false out pipe' pieces y) := by
  cases out with
  | some n =>
    cases pipe' with
    | some m => cases hpipe
    | none =>
      refine .ok ⟨⟨by rw [h.shell], h.files, h.keepGoing⟩, hw, [Text.encode ""], ?_, ?_⟩
      · rw [Console.receive_encode, ← hout]
        rfl
      · rw [Text.decodePieces_encode, ← hout, ← h.shell]
        rfl
  | none =>
    cases pipe' with
    | none => cases hpipe
    | some m =>
      have hstdout : x.shell.wiring.outlet .stdout = .output := by rw [hw]; rfl
      obtain ⟨_, x', hserve, haside⟩ := noted_serve pipe { x with shell := { x.shell with
        output := x.shell.output.receive pieces } }
      have hx : handOn true none pipe pieces x = .ok () { x' with pending := .nothing } := by
        have hreceive : receive .stdout pipe pieces x = .ok () x' := by
          rw [receive, Attempt.bind_of_ok (Attempt.modify_apply _ _), hstdout]
          exact hserve
        exact Attempt.bind_of_ok hreceive _
      rw [hx]
      have hshell : x'.shell = { x.shell with output := x.shell.output.receive pieces } :=
        haside.shell
      refine .ok ⟨⟨?_, ?_, ?_⟩, ?_, pieces, ?_, ?_⟩
      · change y.shell = { x'.shell with output := y.shell.output, captured := y.shell.captured }
        rw [hshell, h.shell]
      · exact h.files.trans haside.files.symm
      · exact h.keepGoing.trans haside.keepGoing.symm
      · exact (congrArg Shell.wiring haside.shell).trans hw
      · rw [← hout, ← Console.write_empty (x.shell.output.receive pieces)]
        exact congrArg (fun s : Shell τ => s.output.write "") haside.shell
      · rw [← hout, ← h.shell]
        rfl

theorem agree_attend (out err : Option Nat) (amount : Nat) (output : Output) (h : Even base x y) :
    Attempt.Agree (Handed base) (Lost base) (attend true out err amount output x)
      (attend false out err amount output y) := by
  obtain ⟨rfl, hw, hout, haccounted⟩ := h
  obtain ⟨ends, x₁, hspawn, -⟩ := using_spawn true out err haccounted.using
  obtain ⟨ends', y₁, hspawn', -, -, hoffered, -⟩ := using_spawn false out err haccounted.using
  have haside : Aside x x₁ := by
    obtain ⟨_, _, hspawn₁, haside⟩ := noted_spawn true out err x
    cases hspawn.symm.trans hspawn₁
    exact haside
  have haside' : Aside x y₁ := by
    obtain ⟨_, _, hspawn₁, haside⟩ := noted_spawn false out err x
    cases hspawn'.symm.trans hspawn₁
    exact haside
  have hpipe : ends'.output.isSome = out.isNone := by
    rw [hoffered]
    simp [Wiring.stageOutput, Shell.inherits]
  have hlast : ∀ {x₂ y₂ : Job τ}, Alike x₂ y₂ → Withholds x₁ x₂ →
      Attempt.Agree (fun x y => Akin x y ∧ Passed base x y) (fun _ _ => False)
        (handOn true out ends.output (output.pieces .stdout) x₂)
        (handOn false out ends'.output (output.pieces .stdout) y₂) := by
    intro x₂ y₂ h hkept
    have hw₁ : x₁.shell.wiring = .own := (congrArg Shell.wiring haside.shell).trans hw
    exact agree_handOn out _ hpipe h (hkept.wiring.trans hw₁)
      ((hkept.output hw₁).trans ((congrArg Shell.output haside.shell).trans hout))
  have hfirst : Attempt.Agree (fun x y => Akin x y ∧ Passed base x y) (fun _ _ => False)
      (attend true out err amount output x) (attend false out err amount output x) := by
    rw [attend, attend, Attempt.bind_of_ok hspawn, Attempt.bind_of_ok hspawn']
    refine (alongside_feed ends.input ends'.input amount
      ((Alike.refl x).of_aside haside haside')).bind_of_ok fun _ x₂ y₂ hx₂ h => ?_
    refine (alongside_writeOutput out err output h).bind_of_ok fun _ x₃ y₃ hx₃ h => ?_
    have hkept : Withholds x₁ x₃ := trans_of Withholds ((withholds_feed _ _).ok hx₂)
      ((withholds_writeOutput _ _ _).ok hx₃)
    cases err with
    | none =>
      refine (alongside_receive .stderr ends.errors ends'.errors _ h).bind_of_ok
        fun _ x₄ y₄ hx₄ h => ?_
      exact hlast h (trans_of Withholds hkept ((withholds_receive_stderr _ _).ok hx₄))
    | some n => exact hlast h hkept
  refine hfirst.of_final (fun h => ⟨⟨h.1, fun room => ?_⟩, h.2⟩) False.elim
  rw [stuck_attend_iff _ _ _ _ _ haccounted, stuck_attend_iff _ _ _ _ _ haccounted]

theorem launchFor_congr (path : String) (out err : Option Nat) (hw : j.shell.wiring = .own) :
    launchFor e c false path out err j = launchFor e c true path out err j := by
  cases out <;> simp [launchFor, Wiring.stageOutput, isFull, hw, Wiring.own, Outlet.isFull]

theorem agree_launch (path : String) (out err : Option Nat) (h : Even base x y) :
    Attempt.Agree (Handed base) (Lost base) (launch e c true path out err x)
      (launch e c false path out err y) := by
  have hlost := h.lost
  cases hwords : (c.name :: c.args).all FileTree.isPath with
  | false =>
    unfold launch
    rw [hwords]
    exact .error hlost
  | true =>
    obtain ⟨rfl, hw, hout, haccounted⟩ := h
    have hlaunching : launching e c false path out err x = launching e c true path out err x := by
      rw [launching, launching, launchFor_congr path out err hw]
    rw [launch_apply hwords, launch_apply hwords, hlaunching, launchFor_congr path out err hw]
    cases launching e c true path out err x with
    | error r => exact .error hlost
    | ok output => exact agree_attend out err _ output ⟨rfl, hw, hout, haccounted⟩

theorem agree_runProcess (h : Even base x y) :
    Attempt.Agree (Handed base) (Lost base) (runProcess e c true x) (runProcess e c false y) := by
  have hsame := h.same
  rw [runProcess_eq, runProcess_eq, Attempt.bind_of_ok (Attempt.get_apply _),
    Attempt.bind_of_ok (Attempt.get_apply _), ← hsame]
  cases x.shell.locate c.name with
  | none => exact .error (hsame ▸ h.lost)
  | some path =>
    have hopen : ∀ d {x y : Job τ}, Even base x y →
        Attempt.Agree (Even base) (Lost base) (openDestination d x) (openDestination d y) :=
      fun d _ _ => agree_of_withholds (withholds_openDestination d) (accounts_openDestination d)
    exact (hopen _ (hsame ▸ h)).bind fun out _ _ h => (hopen _ h).bind fun err _ _ h =>
      agree_launch path out err h

theorem forked_builtinShell (hw : j.shell.wiring = .own) :
    Forked j.shell.output (j.builtinShell true) (j.builtinShell false) := by
  have hdivert : j.builtinShell false = divert j.shell.output "" (j.builtinShell true) := by
    simp [builtinShell, divert, stageWiring, Wiring.stageOutput]
  rw [hdivert]
  refine ⟨?_, ?_, rfl, rfl⟩
  · simp [builtinShell, stageWiring, Wiring.stageOutput, hw, Wiring.own]
  · simp [builtinShell, stageWiring, hw, Wiring.own]

theorem agree_runBuiltin (he : e.GoesByWiring) {tag : τ} (hb : Blind (e.handler tag c.args))
    (h : Even base x y) : Attempt.Agree (Handed base) (Lost base) (runBuiltin e tag c true x)
      (runBuiltin e tag c false y) := by
  obtain ⟨rfl, hw, rfl, -⟩ := h
  have hinvoke := agree_invoke he hb (forked_builtinShell hw)
  rw [runBuiltin_apply, runBuiltin_apply]
  generalize invoke e tag c (x.builtinShell true) = v at hinvoke
  generalize invoke e tag c (x.builtinShell false) = w at hinvoke
  cases hinvoke with
  | @ok b s t h =>
    obtain ⟨kept, -, -, houtput⟩ := h
    refine .ok ⟨⟨⟨rfl, rfl, rfl⟩, fun _ => Iff.rfl⟩, hw, [Text.encode kept], ?_, ?_⟩
    · rw [Console.receive_encode, ← houtput]
      exact Console.write_empty _
    · rw [Text.decodePieces_encode]
      rfl
  | @error f s t h =>
    obtain ⟨kept, -, -, houtput⟩ := h
    refine .error ⟨⟨⟨rfl, rfl, rfl⟩, fun room => ?_⟩, ⟨kept, houtput⟩, rfl⟩
    exact (stuck_shell_iff _ _).trans (stuck_shell_iff _ _).symm

theorem agree_runStage (he : e.GoesByWiring) (hb : e.Blind) (h : Even base x y) :
    Attempt.Agree (Handed base) (Lost base) (runStage e c true x) (runStage e c false y) := by
  have hsame := h.same
  cases hc : c.isEmpty with
  | true =>
    rw [runStage_of_isEmpty hc, runStage_of_isEmpty hc]
    exact agree_runEmpty _ h
  | false =>
    cases hreg : x.shell.registry.isBuiltin c.name with
    | true =>
      obtain ⟨tag, htag⟩ := resolve_of_isBuiltin hreg
      rw [runStage_of_resolve hc hreg htag, runStage_of_resolve hc (hsame ▸ hreg) (hsame ▸ htag)]
      exact agree_runBuiltin he (hb tag c.args) h
    | false =>
      rw [runStage_of_program hc hreg, runStage_of_program hc (hsame ▸ hreg)]
      exact agree_runProcess h

end Job

end PipelineShell
