import PipelineShell.Execution
import PipelineShell.Proofs.Writers

/-! What a builtin can do to the shell. It writes texts to its two streams and reads its input, and
where these lead is a matter of the wiring, which it does not touch. -/

namespace PipelineShell

theorem Text.encode_append (a b : String) : Text.encode (a ++ b) = Text.encode a ++ Text.encode b :=
  String.toByteArray_append

namespace Console

@[simp] theorem write_empty (c : Console) : c.write "" = c := by
  cases c <;> simp [write, Text.encode]

@[simp] theorem write_write (c : Console) (a b : String) :
    (c.write a).write b = c.write (a ++ b) := by
  cases c <;> simp [write, Text.encode_append, String.append_assoc, ByteArray.append_assoc]

end Console

namespace Shell

variable {τ α : Type}

/-- Nothing but the files and what is open has changed, and no device is new. -/
structure FilesOnly (s t : Shell τ) : Prop where
  same : t = { s with
    world := { s.world with tree := t.world.tree }
    outFile := t.outFile
    errFile := t.errFile }
  devices : FileTree.NoNewDevice s.world.tree t.world.tree

instance : IsPreorder (Shell τ) FilesOnly where
  refl s := ⟨rfl, refl_of FileTree.NoNewDevice s.world.tree⟩
  trans s t u h h' := by
    refine ⟨?_, trans_of FileTree.NoNewDevice h.devices h'.devices⟩
    rw [h'.same, h.same]

namespace FilesOnly

variable {s t : Shell τ} (h : FilesOnly s t)

include h

theorem wiring : t.wiring = s.wiring := by rw [h.same]
theorem registry : t.registry = s.registry := by rw [h.same]
theorem input : t.input = s.input := by rw [h.same]
theorem behind : t.behind = s.behind := by rw [h.same]
theorem given : t.given = s.given := by rw [h.same]
theorem output : t.output = s.output := by rw [h.same]
theorem errors : t.errors = s.errors := by rw [h.same]
theorem captured : t.captured = s.captured := by rw [h.same]

end FilesOnly

theorem filesOnly_setFile (s : Shell τ) (stream : Stream) (f : Option TextWriter) {t : FileTree}
    (h : FileTree.NoNewDevice s.world.tree t) :
    FilesOnly s ({ s with world := { s.world with tree := t } }.setFile stream f) := by
  cases stream <;> exact ⟨rfl, h⟩

theorem keeps_onFile (stream : Stream) {step : TextWriter.Writing Unit}
    (hstep : Attempt.Keeps (Stays TextWriter.place) step) :
    Attempt.Keeps FilesOnly (onFile stream step : Shell.Step τ Unit) := by
  intro s
  cases hf : s.file stream with
  | none =>
    simp only [Attempt.final, onFile, hf]
    exact refl_of FilesOnly s
  | some f =>
    have hstays := (hstep (f, s.world.tree)).noNewDevice
    cases hs : step (f, s.world.tree) with
    | ok a p =>
      rw [Attempt.final_of_ok hs] at hstays
      simpa only [Attempt.final, onFile, hf, hs] using filesOnly_setFile s stream _ hstays
    | error e p =>
      rw [Attempt.final_of_error hs] at hstays
      simpa only [Attempt.final, onFile, hf, hs] using filesOnly_setFile s stream _ hstays

theorem final_readAll (s : Shell τ) : readAll.final s =
    match s.wiring.stdin with
    | .own => { s with input := "", behind := s.behind.map fun _ => "" }
    | .given => { s with given := "" } := by
  simp only [Attempt.final, readAll, Attempt.bind_apply, Attempt.get_apply]
  cases s.wiring.stdin <;> rfl

theorem writeTo_full_apply (atOnce : Bool) (text : String) (s : Shell τ) :
    writeTo (.full atOnce) text s =
      if atOnce && !text.isEmpty then .error (.fault (.refused .noSpace)) s
      else .ok () { s with waiting := s.waiting ++ text } := by
  unfold writeTo
  dsimp only
  split <;> rfl

theorem flush_full_apply (atOnce : Bool) (s : Shell τ) : flush (.full atOnce) s =
    if s.waiting.isEmpty then .ok () s else .error (.fault (.refused .noSpace)) s := by
  simp only [flush, Attempt.bind_apply, Attempt.get_apply]
  cases s.waiting.isEmpty <;> rfl

theorem exists_waiting (atOnce : Bool) (text : String) (s : Shell τ) : ∃ waiting,
    (writeTo (.full atOnce) text).final s = { s with waiting := waiting } := by
  rw [Attempt.final, writeTo_full_apply]
  cases atOnce && !text.isEmpty with
  | true => exact ⟨s.waiting, rfl⟩
  | false => exact ⟨s.waiting ++ text, rfl⟩

theorem final_flush_full (atOnce : Bool) (s : Shell τ) : (flush (.full atOnce)).final s = s := by
  rw [Attempt.final, flush_full_apply]
  cases s.waiting.isEmpty <;> rfl

/-- The texts written, each with its stream, that come to an outlet. -/
def heard (w : Wiring) (o : Outlet) : List (Stream × String) → String
  | [] => ""
  | (stream, text) :: rest => (if w.outlet stream = o then text else "") ++ heard w o rest

def told (stream : Stream) : List (Stream × String) → String
  | [] => ""
  | (s, text) :: rest => (if s = stream then text else "") ++ told stream rest

theorem heard_eq {w : Wiring} (o : Outlet) (h : w.stdout ≠ w.stderr)
    (said : List (Stream × String)) : heard w o said =
      if w.stdout = o then told .stdout said
      else if w.stderr = o then told .stderr said else "" := by
  induction said with
  | nil => simp [heard, told]
  | cons p said ih =>
    obtain ⟨stream, text⟩ := p
    cases stream with
    | stdout =>
      by_cases ho : w.stdout = o <;> simp [heard, told, ih, Wiring.outlet, ho]
    | stderr =>
      by_cases ho : w.stdout = o
      · subst ho
        simp [heard, told, ih, Wiring.outlet, h.symm]
      · by_cases he : w.stderr = o <;> simp [heard, told, ih, Wiring.outlet, ho, he]

theorem told_append (stream : Stream) (said more : List (Stream × String)) :
    told stream (said ++ more) = told stream said ++ told stream more := by
  induction said with
  | nil => simp [told]
  | cons p said ih => simp [told, ih, String.append_assoc]

/-- The shell after a builtin has written some texts, in this order, has read its input any number
of times, and has made other changes of one kind. -/
inductive Acts (other : Shell τ → Shell τ → Prop) :
    Shell τ → List (Stream × String) → Shell τ → Prop
  | rest (s : Shell τ) : Acts other s [] s
  | write {s t : Shell τ} {said : List (Stream × String)} (stream : Stream) (text : String)
      (h : Acts other ((writeTo (s.wiring.outlet stream) text).final s) said t) :
      Acts other s ((stream, text) :: said) t
  | read {s t : Shell τ} {said : List (Stream × String)} (h : Acts other (readAll.final s) said t) :
      Acts other s said t
  | change {s s' t : Shell τ} {said : List (Stream × String)} (hs : other s s')
      (h : Acts other s' said t) : Acts other s said t

/-- What surrounds the shell has changed, or what it remembers of the lines before. -/
def Around (s t : Shell τ) : Prop :=
  t = { s with world := t.world, history := t.history }

namespace Acts

variable {other : Shell τ → Shell τ → Prop} {s t u : Shell τ} {said more : List (Stream × String)}

theorem trans (h : Acts other s said t) (h' : Acts other t more u) :
    Acts other s (said ++ more) u := by
  induction h with
  | rest _ => exact h'
  | write stream text _ ih => exact .write stream text (ih h')
  | read _ ih => exact .read (ih h')
  | change hs _ ih => exact .change hs (ih h')

theorem mono {more : Shell τ → Shell τ → Prop} (h : Acts other s said t)
    (hm : ∀ s t, other s t → more s t) : Acts more s said t := by
  induction h with
  | rest s => exact .rest s
  | write stream text _ ih => exact .write stream text ih
  | read _ ih => exact .read ih
  | change hs _ ih => exact .change (hm _ _ hs) ih

theorem keeps {R : Shell τ → Shell τ → Prop} [IsPreorder (Shell τ) R] (h : Acts other s said t)
    (hwrite : ∀ s stream text, R s ((writeTo (s.wiring.outlet stream) text).final s))
    (hread : ∀ s, R s (readAll.final s)) (hother : ∀ s t, other s t → R s t) : R s t := by
  induction h with
  | rest s => exact refl_of R s
  | write stream text _ ih => exact trans_of R (hwrite _ stream text) ih
  | read _ ih => exact trans_of R (hread _) ih
  | change hs _ ih => exact trans_of R (hother _ _ hs) ih

end Acts

/-- What the texts written come to: the wiring and the table of builtins are as before, and the
console, the errors and the kept text have got what was written to an outlet that leads there. -/
structure Told (s : Shell τ) (said : List (Stream × String)) (t : Shell τ) : Prop where
  wiring : t.wiring = s.wiring
  registry : t.registry = s.registry
  output : t.output = s.output.write (heard s.wiring .output said)
  errors : t.errors = s.errors.write (heard s.wiring .errors said)
  captured : t.captured = s.captured ++ heard s.wiring .captured said

namespace Told

variable {s t u : Shell τ} {said more : List (Stream × String)}

theorem nothing (hw : t.wiring = s.wiring) (hr : t.registry = s.registry)
    (ho : t.output = s.output) (he : t.errors = s.errors) (hc : t.captured = s.captured) :
    Told s [] t :=
  ⟨hw, hr, by simp [heard, ho], by simp [heard, he], by simp [heard, hc]⟩

theorem heard_append (w : Wiring) (o : Outlet) (said more : List (Stream × String)) :
    heard w o (said ++ more) = heard w o said ++ heard w o more := by
  induction said with
  | nil => simp [heard]
  | cons p said ih => simp [heard, ih, String.append_assoc]

theorem trans (h : Told s said t) (h' : Told t more u) : Told s (said ++ more) u where
  wiring := h'.wiring.trans h.wiring
  registry := h'.registry.trans h.registry
  output := by rw [h'.output, h.output, h.wiring, Console.write_write, heard_append]
  errors := by rw [h'.errors, h.errors, h.wiring, Console.write_write, heard_append]
  captured := by rw [h'.captured, h.captured, h.wiring, String.append_assoc, heard_append]

theorem write (s : Shell τ) (stream : Stream) (text : String) :
    Told s [(stream, text)] ((writeTo (s.wiring.outlet stream) text).final s) := by
  cases ho : s.wiring.outlet stream with
  | output =>
    have h : (writeTo .output text).final s = { s with output := s.output.write text } := rfl
    exact h ▸ ⟨rfl, rfl, by simp [heard, ho], by simp [heard, ho], by simp [heard, ho]⟩
  | errors =>
    have h : (writeTo .errors text).final s = { s with errors := s.errors.write text } := rfl
    exact h ▸ ⟨rfl, rfl, by simp [heard, ho], by simp [heard, ho], by simp [heard, ho]⟩
  | captured =>
    have h : (writeTo .captured text).final s = { s with captured := s.captured ++ text } := rfl
    exact h ▸ ⟨rfl, rfl, by simp [heard, ho], by simp [heard, ho], by simp [heard, ho]⟩
  | file f =>
    have h : FilesOnly s ((writeTo (.file f) text).final s) :=
      keeps_onFile f (TextWriter.keeps_write text) s
    exact ⟨h.wiring, h.registry, by simp [heard, ho, h.output], by simp [heard, ho, h.errors],
      by simp [heard, ho, h.captured]⟩
  | full atOnce =>
    obtain ⟨waiting, h⟩ := exists_waiting atOnce text s
    exact h ▸ ⟨rfl, rfl, by simp [heard, ho], by simp [heard, ho], by simp [heard, ho]⟩

theorem read (s : Shell τ) : Told s [] (readAll.final s) := by
  rw [final_readAll]
  cases s.wiring.stdin <;> exact .nothing rfl rfl rfl rfl rfl

end Told

theorem Acts.told {other : Shell τ → Shell τ → Prop} {s t : Shell τ}
    {said : List (Stream × String)} (h : Acts other s said t)
    (hother : ∀ s t, other s t → Around s t) : Told s said t := by
  induction h with
  | rest s => exact .nothing rfl rfl rfl rfl rfl
  | write stream text _ ih => exact (Told.write _ stream text).trans ih
  | read _ ih => exact (Told.read _).trans ih
  | change hs _ ih =>
    have hh := hother _ _ hs
    exact (Told.nothing (by rw [hh]) (by rw [hh]) (by rw [hh]) (by rw [hh]) (by rw [hh])).trans ih

end Shell

/-- The builtins go by their wiring, and change around them whatever else they change. -/
def Engine.GoesByWiring {τ : Type} (e : Engine τ) : Prop :=
  ∀ tag args s, ∃ said, Shell.Acts Shell.Around s said ((e.handler tag args).final s)

end PipelineShell
