import PipelineShell.Pipeline.Segment

/-! How the scan for bars goes through a stretch of text that no bar cuts. A quoted text is such a
stretch, and the scan leaves it in the mode in which it came. -/

namespace PipelineShell

namespace ScanMode

@[simp] theorem run_nil (m : ScanMode) : m.run [] = m := rfl

@[simp] theorem run_cons (m : ScanMode) (c : Char) (cs : List Char) :
    m.run (c :: cs) = (m.step c).run cs := rfl

@[simp] theorem run_append (m : ScanMode) (cs ds : List Char) :
    m.run (cs ++ ds) = (m.run cs).run ds :=
  List.foldl_append

/-- No bar among the characters ends a segment. -/
def uncut : ScanMode → List Char → Bool
  | _, [] => true
  | m, c :: cs => !m.cuts c && (m.step c).uncut cs

@[simp] theorem uncut_nil (m : ScanMode) : m.uncut [] = true := rfl

@[simp] theorem uncut_cons (m : ScanMode) (c : Char) (cs : List Char) :
    m.uncut (c :: cs) = (!m.cuts c && (m.step c).uncut cs) := rfl

@[simp] theorem uncut_append (m : ScanMode) (cs ds : List Char) :
    m.uncut (cs ++ ds) = (m.uncut cs && (m.run cs).uncut ds) := by
  induction cs generalizing m with
  | nil => simp
  | cons c cs ih => simp [ih, Bool.and_assoc]

/-- The characters are one stretch of a segment: no bar cuts them, and the scan is as free behind
them as it was before them. -/
def Whole (cs : List Char) : Prop :=
  plain.uncut cs = true ∧ plain.run cs = plain

theorem Whole.nil : Whole [] := ⟨rfl, rfl⟩

theorem Whole.append {cs ds : List Char} (h : Whole cs) (h' : Whole ds) : Whole (cs ++ ds) := by
  simp [Whole, h.1, h.2, h'.1, h'.2]

/-- The characters that neither cut nor change the mode outside quotation. -/
def isPlain (c : Char) : Bool :=
  c ≠ '|' && c ≠ apostrophe && c ≠ quotationMark && c ≠ backslash

theorem whole_of_plain {cs : List Char} (h : ∀ c ∈ cs, isPlain c = true) : Whole cs := by
  induction cs with
  | nil => exact .nil
  | cons c cs ih =>
    have hc : c ≠ '|' ∧ c ≠ apostrophe ∧ c ≠ quotationMark ∧ c ≠ backslash := by
      simpa [isPlain, and_assoc] using h c (by simp)
    have hh := ih fun d hd => h d (by simp [hd])
    simpa [Whole, cuts, step, hc] using hh

theorem single_quoteChar (c : Char) : single.uncut (quoteChar c) = true ∧
    single.run (quoteChar c) = single := by
  by_cases hc : c = apostrophe
  · subst c
    decide
  · simp [quoteChar, hc, cuts, step]

theorem single_quoted (cs : List Char) : single.uncut (cs.flatMap quoteChar) = true ∧
    single.run (cs.flatMap quoteChar) = single := by
  induction cs with
  | nil => simp
  | cons c cs ih => simp [single_quoteChar c, ih]

end ScanMode

theorem isPlain_of_isSafe {c : Char} (h : isSafe c = true) : ScanMode.isPlain c = true := by
  have hne : ∀ d, isSafe d = false → c ≠ d := by
    rintro d hd rfl
    simp [h] at hd
  simp [ScanMode.isPlain, hne '|' (by decide), hne apostrophe (by decide),
    hne quotationMark (by decide), hne backslash (by decide)]

theorem whole_quoteChars (cs : List Char) : ScanMode.Whole (quoteChars cs) := by
  by_cases hs : (cs.all isSafe && !cs.isEmpty) = true
  · have hall : cs.all isSafe = true := (Bool.and_eq_true_iff.mp hs).1
    rw [quoteChars, if_pos hs]
    exact ScanMode.whole_of_plain fun c hc => isPlain_of_isSafe (List.all_eq_true.mp hall c hc)
  · have hh := ScanMode.single_quoted cs
    have hopen : ScanMode.plain.step apostrophe = .single := rfl
    have hclose : ScanMode.single.step apostrophe = .plain := rfl
    have hcut : ∀ m : ScanMode, m.cuts apostrophe = false := fun m => by
      simp [ScanMode.cuts, apostrophe]
    rw [quoteChars, if_neg hs]
    simp [ScanMode.Whole, hopen, hclose, hcut, hh]

theorem segmentsFrom_uncut {m : ScanMode} {cs : List Char} (h : m.uncut cs = true)
    (done rest : List Char) :
    segmentsFrom m done (cs ++ rest) = segmentsFrom (m.run cs) (cs.reverse ++ done) rest := by
  induction cs generalizing m done with
  | nil => simp
  | cons c cs ih =>
    have hc : m.cuts c = false ∧ (m.step c).uncut cs = true := by simpa using h
    simp [segmentsFrom, hc.1, ih hc.2]

theorem segmentsFrom_whole {cs : List Char} (h : ScanMode.Whole cs) (done rest : List Char) :
    segmentsFrom .plain done (cs ++ rest) = segmentsFrom .plain (cs.reverse ++ done) rest := by
  rw [segmentsFrom_uncut h.1, h.2]

@[simp] theorem segmentsFrom_bar (done rest : List Char) :
    segmentsFrom .plain done ('|' :: rest) = done.reverse :: segmentsFrom .plain [] rest := rfl

end PipelineShell
