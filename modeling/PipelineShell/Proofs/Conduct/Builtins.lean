import PipelineShell.Builtin.Run
import PipelineShell.Proofs.Conduct

/-! The builtins are made of a few steps. So they go by their wiring; of the rest of the shell they
change the working directory and the record of the time slept, and nothing else. -/

namespace PipelineShell

namespace Shell

variable {τ : Type} {other : Shell τ → Shell τ → Prop}

/-- The shell after some acts of a builtin. -/
def Reaches (other : Shell τ → Shell τ → Prop) (s t : Shell τ) : Prop :=
  ∃ said, Acts other s said t

instance : IsPreorder (Shell τ) (Reaches other) where
  refl s := ⟨[], .rest s⟩
  trans _ _ _ h h' := by
    obtain ⟨said, h⟩ := h
    obtain ⟨more, h'⟩ := h'
    exact ⟨said ++ more, h.trans h'⟩

/-- The working directory or the time slept has changed. -/
def Roams (s t : Shell τ) : Prop :=
  t = { s with world := { s.world with dir := t.world.dir, slept := t.world.slept } }

theorem Roams.around {s t : Shell τ} (h : Roams s t) : Around s t := by
  unfold Roams at h
  unfold Around
  rw [h]

theorem reaches_of_other {s t : Shell τ} (h : other s t) : Reaches other s t :=
  ⟨[], .change h (.rest t)⟩

theorem acts_write (s : Shell τ) (stream : Stream) (text : String) :
    Acts other s [(stream, text)] ((writeTo (s.wiring.outlet stream) text).final s) :=
  .write stream text (.rest _)

theorem keeps_write (text : String) :
    Attempt.Keeps (Reaches other) (write text : Shell.Step τ Unit) :=
  fun s => ⟨_, acts_write s .stdout text⟩

theorem keeps_readAll : Attempt.Keeps (Reaches other) (readAll : Shell.Step τ String) :=
  fun _ => ⟨[], .read (.rest _)⟩

theorem acts_printLine {s t : Shell τ} {stream : Stream} {text : String}
    (h : printLine stream text s = .ok () t) : Acts other s [(stream, text), (stream, "\n")] t := by
  obtain ⟨_, s', hs, ht⟩ := Attempt.bind_eq_ok.mp
    (show (writeTo (s.wiring.outlet stream) text >>= fun _ =>
      writeTo (s.wiring.outlet stream) "\n") s = .ok () t from h)
  have hf := Attempt.final_of_ok hs
  have hw : s'.wiring = s.wiring := hf ▸ (Told.write s stream text).wiring
  refine .write stream text ?_
  rw [hf, ← Attempt.final_of_ok ht, ← hw]
  exact acts_write s' stream "\n"

theorem keeps_printLine (stream : Stream) (text : String) :
    Attempt.Keeps (Reaches other) (printLine stream text : Shell.Step τ Unit) := by
  intro s
  have hstep : printLine stream text s = (writeTo (s.wiring.outlet stream) text >>= fun _ =>
    writeTo (s.wiring.outlet stream) "\n") s := rfl
  have hfirst : Acts other s [(stream, text)] _ := acts_write s stream text
  cases hs : writeTo (s.wiring.outlet stream) text s with
  | ok a s' =>
    have hf := Attempt.final_of_ok hs
    have hw : s'.wiring = s.wiring := hf ▸ (Told.write s stream text).wiring
    rw [Attempt.final, hstep, Attempt.bind_of_ok hs]
    rw [hf] at hfirst
    exact ⟨_, hfirst.trans (hw ▸ acts_write s' stream "\n")⟩
  | error e s' =>
    rw [Attempt.final, hstep, Attempt.bind_of_error hs]
    rw [Attempt.final_of_error hs] at hfirst
    exact ⟨_, hfirst⟩

theorem keeps_complain (text : String) :
    Attempt.Keeps (Reaches other) (complain text : Shell.Step τ Unit) :=
  keeps_printLine .stderr text

/-- Steps that builtins are made of, with the failures that they may raise. They write where the
wiring leads and read what is there; the rest of the shell they look at, but for where their output
goes, and of that they change the working directory and the time slept. -/
inductive Plain (P : Failure → Prop) : {α : Type} → Shell.Step τ α → Prop
  | done {α : Type} (a : α) : Plain P (pure a : Shell.Step τ α)
  | fail {α : Type} {f : Failure} (h : P f) : Plain P (throw f : Shell.Step τ α)
  | write (text : String) : Plain P (write text)
  | line (stream : Stream) (text : String) : Plain P (printLine stream text)
  | read : Plain P readAll
  | roam (change : World → World)
      (h : ∀ w, change w = { w with dir := (change w).dir, slept := (change w).slept }) :
      Plain P (modify fun s => { s with world := change s.world } : Shell.Step τ PUnit)
  | look {α : Type} {f : Shell τ → Shell.Step τ α}
      (hsame : ∀ s w out kept, f { s with wiring := w, output := out, captured := kept } = f s)
      (hf : ∀ s, Plain P (f s)) : Plain P (get >>= f)
  | bind {α β : Type} {x : Shell.Step τ α} {f : α → Shell.Step τ β} (hx : Plain P x)
      (hf : ∀ a, Plain P (f a)) : Plain P (x >>= f)
  | handle {α : Type} {x : Shell.Step τ α} {h : Failure → Option (Shell.Step τ α)}
      (hx : Plain P x) (hh : ∀ f y, h f = some y → Plain P y) : Plain P (x.handle h)

variable {P : Failure → Prop} {α : Type} {x : Shell.Step τ α}

theorem Plain.keeps (h : Plain P x) : Attempt.Keeps (Reaches Roams) x := by
  induction h with
  | done a => exact Attempt.keeps_pure _
  | fail h => exact Attempt.keeps_throw _
  | write text => exact keeps_write text
  | line stream text => exact keeps_printLine stream text
  | read => exact keeps_readAll
  | roam change h =>
    refine Attempt.keeps_modify fun s => reaches_of_other ?_
    unfold Roams
    rw [← h s.world]
  | look hsame hf ih => exact Attempt.keeps_get fun s => ih s s
  | bind hx hf ihx ihf => exact ihx.bind ihf
  | handle hx hh ihx ihh => exact ihx.handle ihh

theorem Plain.returning {x : Shell.Step τ Unit} (h : Plain P x) (b : Bool) :
    Plain P (x >>= fun _ => pure b) :=
  h.bind fun _ => .done b

end Shell

/-- A failure with a path or a file. -/
def Failure.IsFault (f : Failure) : Prop :=
  ∃ g, f = .fault g

namespace Builtin

open Shell

variable {τ : Type}

theorem plain_complainAbout (builtin path : String) (f : Fault) :
    Plain Failure.IsFault (complainAbout builtin path f : Shell.Step τ Unit) := by
  cases f with
  | refused r => exact .line _ _
  | nulByte => exact .fail ⟨_, rfl⟩

theorem plain_copyFile (path : String) :
    Plain Failure.IsFault (copyFile path : Shell.Step τ Unit) := by
  refine .look (fun _ _ _ _ => rfl) fun s => ?_
  cases s.world.read path with
  | ok bytes => exact .write _
  | error f => exact .fail ⟨_, rfl⟩

theorem plain_copyFiles (paths : List String) :
    Plain Failure.IsFault (copyFiles paths : Shell.Step τ Unit) := by
  induction paths with
  | nil => exact .done _
  | cons path paths ih =>
    refine ((plain_copyFile path).handle fun f y hy => ?_).bind fun _ => ih
    cases f with
    | fault f => exact (Option.some.inj hy) ▸ plain_complainAbout "cat" path f
    | _ => simp at hy

theorem plain_runCat (args : List String) :
    Plain Failure.IsFault (runCat args : Shell.Step τ Bool) := by
  cases args with
  | nil => exact Plain.read.bind fun _ => (Plain.write _).returning _
  | cons path paths => exact (plain_copyFiles _).returning _

theorem plain_runType (names : List String) :
    Plain Failure.IsFault (runType names : Shell.Step τ Bool) := by
  induction names with
  | nil => exact .done _
  | cons name names ih =>
    refine .look (fun _ _ _ _ => rfl) fun s => ?_
    cases meaning s name <;> exact (Plain.line _ _).bind fun _ => ih

theorem plain_runWhich (names : List String) :
    Plain Failure.IsFault (runWhich names : Shell.Step τ Bool) := by
  induction names with
  | nil => exact .done _
  | cons name names ih =>
    refine .look (fun _ _ _ _ => rfl) fun s => ?_
    cases meaning s name <;> exact (Plain.line _ _).bind fun _ => ih

theorem plain_sayEntries (l : List (Nat × String)) :
    Plain Failure.IsFault (sayEntries l : Shell.Step τ Unit) := by
  induction l with
  | nil => exact .done _
  | cons e l ih => exact (Plain.line _ _).bind fun _ => ih

theorem plain_sayVariables (env : Environment) :
    Plain Failure.IsFault (sayVariables env : Shell.Step τ Unit) := by
  induction env with
  | nil => exact .done _
  | cons v env ih => exact (Plain.line _ _).bind fun _ => ih

theorem enter_eq_ok {w w' : World} {path : String} (h : w.enter path = .ok w') :
    ∃ dir, w' = { w with dir := dir } := by
  unfold World.enter at h
  split at h
  · split at h
    · exact ⟨_, (Except.ok.inj h).symm⟩
    · cases h
  · cases h

theorem runCd_eq (args : List String) : (runCd args : Shell.Step τ Bool) =
    get >>= fun s => (match s.world.enter (expandHome s.world (args.head?.getD "~")) with
      | .ok world => modify fun s => { s with world := { s.world with dir := world.dir } }
      | .error f => complainAbout "cd" (args.head?.getD "~") f) >>= fun _ => pure Bool.true := by
  funext s
  simp only [runCd, Attempt.bind_apply, Attempt.get_apply]
  cases hw : s.world.enter (expandHome s.world (args.head?.getD "~")) with
  | ok world =>
    obtain ⟨dir, rfl⟩ := enter_eq_ok hw
    rfl
  | error f => rfl

theorem plain_runCd (args : List String) :
    Plain Failure.IsFault (runCd args : Shell.Step τ Bool) := by
  rw [runCd_eq]
  refine .look (fun _ _ _ _ => rfl) fun s => ?_
  cases s.world.enter (expandHome s.world (args.head?.getD "~")) with
  | ok world => exact (Plain.roam (fun w => { w with dir := world.dir }) fun _ => rfl).returning _
  | error f => exact (plain_complainAbout "cd" _ f).returning _

theorem plain_runSleep (args : List String) :
    Plain Failure.IsFault (runSleep args : Shell.Step τ Bool) := by
  cases args with
  | nil => exact (Plain.line _ _).returning _
  | cons a args =>
    unfold runSleep
    dsimp only
    split
    · exact (Plain.roam (fun w => { w with slept := _ :: w.slept }) fun _ => rfl).returning _
    · exact (Plain.line _ _).returning _

theorem plain_runWhoami (args : List String) :
    Plain Failure.IsFault (runWhoami args : Shell.Step τ Bool) := by
  refine .look (fun _ _ _ _ => rfl) fun s => ?_
  dsimp only
  cases filled? s.world.env "USERNAME" <|> filled? s.world.env "USER" <;>
    exact (Plain.line _ _).returning _

theorem plain_run (b : Builtin) (args : List String) :
    Plain Failure.IsFault (b.run args : Shell.Step τ Bool) := by
  cases b with
  | cat => exact plain_runCat args
  | cd => exact plain_runCd args
  | clear => exact (Plain.write _).returning _
  | date => exact .look (fun _ _ _ _ => rfl) fun s => (Plain.line _ _).returning _
  | echo => exact (Plain.line _ _).returning _
  | env => exact .look (fun _ _ _ _ => rfl) fun s => (plain_sayVariables _).returning _
  | exit => exact .done _
  | history => exact .look (fun _ _ _ _ => rfl) fun s => (plain_sayEntries _).returning _
  | pwd => exact .look (fun _ _ _ _ => rfl) fun s => (Plain.line _ _).returning _
  | sleep => exact plain_runSleep args
  | true => exact .done _
  | type => exact plain_runType args
  | which => exact plain_runWhich args
  | whoami => exact plain_runWhoami args

end Builtin

/-- The builtins go by their wiring, and change nothing else than where the shell is and how long it
has slept. -/
def Engine.OnlyRoams {τ : Type} (e : Engine τ) : Prop :=
  ∀ tag args, Attempt.Keeps (Shell.Reaches Shell.Roams) (e.handler tag args)

theorem Engine.OnlyRoams.goesByWiring {τ : Type} {e : Engine τ} (he : e.OnlyRoams) :
    e.GoesByWiring := by
  intro tag args s
  obtain ⟨said, h⟩ := he tag args s
  exact ⟨said, h.mono fun _ _ => Shell.Roams.around⟩

theorem Builtin.onlyRoams (programs : Programs) (chunkSize : Int) (host : Host) :
    (⟨Builtin.run, programs, chunkSize, host⟩ : Engine Builtin).OnlyRoams :=
  fun b args => (plain_run b args).keeps

end PipelineShell
