import PipelineShell.Proofs.Lexing.Stages

/-! Cutting a line into segments and reading the words of each is the same as reading the line once.
The two passes stand in the same place of every quotation, although a backslash within quotation
marks escapes any character for the first and only some for the second. -/

namespace PipelineShell

/-- A reader of a whole line: the word begun, the words of the stage before it, and the stages that
have ended. A bar ends a stage where the reader is in plain mode and nowhere else. -/
structure LineReader where
  mode : ScanMode
  word : Option Word
  words : List Word
  stages : List (List Word)

namespace LineReader

def start : LineReader := ⟨.plain, none, [], []⟩

def current (r : LineReader) : Word :=
  r.word.getD ⟨"", false⟩

def keep (r : LineReader) (c : Char) (mode : ScanMode) : LineReader :=
  { r with mode := mode, word := some { r.current with text := r.current.text.push c } }

def mark (r : LineReader) (mode : ScanMode) : LineReader :=
  { r with mode := mode, word := some { r.current with quoted := true } }

def endWord (r : LineReader) : LineReader :=
  { r with word := none, words := r.words ++ r.word.toList }

def endStage (r : LineReader) : LineReader :=
  ⟨r.mode, none, [], r.stages ++ [r.words ++ r.word.toList]⟩

def step (r : LineReader) (c : Char) : LineReader :=
  match r.mode with
  | .plain =>
    if c = '|' then r.endStage
    else if Text.isBlank c then r.endWord
    else if c = apostrophe then r.mark .single
    else if c = quotationMark then r.mark .double
    else if c = backslash then r.mark (.escape false)
    else r.keep c .plain
  | .single => if c = apostrophe then { r with mode := .plain } else r.keep c .single
  | .double =>
    if c = quotationMark then { r with mode := .plain }
    else if c = backslash then { r with mode := .escape true }
    else r.keep c .double
  | .escape false => r.keep c .plain
  | .escape true =>
    if Lexer.isMarkEscape c then r.keep c .double else (r.keep backslash .double).keep c .double

/-- The stages at the end of the line. A backslash there stands for itself, and what is quoted there
is closed. -/
def finish (r : LineReader) : List (List Word) :=
  match r.mode with
  | .escape _ => (r.keep backslash .plain).endStage.stages
  | _ => r.endStage.stages

/-- The words of each stage of a line, read once from left to right. -/
def stagesOf (line : String) : List (List Word) :=
  (line.toList.foldl step start).finish

/-- How many bars the reader meets in plain mode. -/
def bars (r : LineReader) : List Char → Nat
  | [] => 0
  | c :: cs => (if r.mode.cuts c then 1 else 0) + (r.step c).bars cs

end LineReader

/-- What a place among the words of a segment is for the scan for bars. -/
def LexMode.scan : LexMode → ScanMode
  | .gap | .bare => .plain
  | .bareEscape => .escape false
  | .single => .single
  | .double => .double
  | .doubleEscape => .escape true

theorem not_blank_of_mark {c : Char} (h : c = apostrophe ∨ c = quotationMark ∨ c = backslash) :
    Text.isBlank c = false := by
  rcases h with rfl | rfl | rfl <;> decide

namespace Lexer

def begun (l : Lexer) : Option Word :=
  if l.mode = .gap then none else some ⟨String.ofList l.word.reverse, l.quoted⟩

theorem mode_enter (l : Lexer) (c : Char) : (l.enter c).mode.scan = ScanMode.plain.step c := by
  by_cases hb : c = backslash
  · subst c
    rfl
  · by_cases ha : c = apostrophe
    · subst c
      rfl
    · by_cases hq : c = quotationMark
      · subst c
        rfl
      · simp [enter, ScanMode.step, hb, ha, hq, LexMode.scan]

/-- The two passes stay in step over every character. -/
theorem scan_step (l : Lexer) (c : Char) : (l.step c).2.mode.scan = l.mode.scan.step c := by
  have hopen : l.mode = .gap ∨ l.mode = .bare →
      (l.step c).2.mode.scan = ScanMode.plain.step c := by
    intro hl
    by_cases hb : Text.isBlank c = true
    · have hc : ¬ (c = apostrophe ∨ c = quotationMark ∨ c = backslash) := fun h => by
        simp [not_blank_of_mark h] at hb
      rcases hl with hl | hl <;>
        simp_all [step, start, LexMode.scan, ScanMode.step]
    · rcases hl with hl | hl <;> simp [step, hl, hb, mode_enter]
  cases hm : l.mode with
  | gap => exact hopen (.inl hm)
  | bare => exact hopen (.inr hm)
  | bareEscape => simp [step, hm, LexMode.scan, ScanMode.step]
  | single => by_cases hc : c = apostrophe <;> simp [step, hm, hc, LexMode.scan, ScanMode.step]
  | double =>
    by_cases hq : c = quotationMark
    · simp [step, hm, hq, LexMode.scan, ScanMode.step]
    · have hne : backslash ≠ quotationMark := by decide
      by_cases hb : c = backslash <;> simp [step, hm, hq, hb, hne, LexMode.scan, ScanMode.step]
  | doubleEscape =>
    by_cases hc : isMarkEscape c = true <;> simp [step, hm, hc, LexMode.scan, ScanMode.step]

end Lexer

/-- The one reader stands where the two passes stand in a segment: the same mode, the same word
begun and the same words before it. Between words the reader of words is as at its start. -/
structure LineReader.Tracks (r : LineReader) (l : Lexer) (ended : List Word) : Prop where
  mode : r.mode = l.mode.scan
  word : r.word = l.begun
  words : r.words = ended
  gap : l.mode = .gap → l = Lexer.start

namespace LineReader

theorem Tracks.current {r : LineReader} {l : Lexer} {ended : List Word} (h : r.Tracks l ended) :
    r.current = ⟨String.ofList l.word.reverse, l.quoted⟩ := by
  by_cases hg : l.mode = .gap
  · have hl := h.gap hg
    subst l
    simp [LineReader.current, h.word, Lexer.begun, Lexer.start]
  · simp [LineReader.current, h.word, Lexer.begun, hg]

section

variable {r : LineReader} {l : Lexer} {ended : List Word} {m : LexMode}

theorem Tracks.keep (h : r.Tracks l ended) (hm : m ≠ .gap) (c : Char) :
    (r.keep c m.scan).Tracks { l with mode := m, word := c :: l.word } ended where
  mode := rfl
  word := by simp [LineReader.keep, h.current, Lexer.begun, hm]
  words := h.words
  gap hg := absurd hg hm

theorem Tracks.mark (h : r.Tracks l ended) (hm : m ≠ .gap) :
    (r.mark m.scan).Tracks { l with mode := m, quoted := true } ended where
  mode := rfl
  word := by simp [LineReader.mark, h.current, Lexer.begun, hm]
  words := h.words
  gap hg := absurd hg hm

theorem Tracks.turn (h : r.Tracks l ended) (hl : l.mode ≠ .gap) (hm : m ≠ .gap) :
    LineReader.Tracks { r with mode := m.scan } { l with mode := m } ended where
  mode := rfl
  word := by simp [h.word, Lexer.begun, hl, hm]
  words := h.words
  gap hg := absurd hg hm

theorem Tracks.finish_eq (h : r.Tracks l ended) (hr : ∀ inDouble, r.mode ≠ .escape inDouble) :
    l.finish = r.word.toList := by
  rw [h.word]
  rw [h.mode] at hr
  cases hl : l.mode with
  | bareEscape => exact absurd (by rw [hl]; rfl) (hr false)
  | doubleEscape => exact absurd (by rw [hl]; rfl) (hr true)
  | _ => simp [Lexer.finish, hl, Lexer.begun]

theorem Tracks.finish_escape (h : r.Tracks l ended) {inDouble : Bool}
    (hr : r.mode = .escape inDouble) : l.finish = (r.keep backslash .plain).word.toList := by
  rw [h.mode] at hr
  have hl : l.mode = .bareEscape ∨ l.mode = .doubleEscape := by
    revert hr
    cases l.mode <;> simp [LexMode.scan]
  rcases hl with hl | hl <;> simp [Lexer.finish, hl, LineReader.keep, h.current]

theorem Tracks.endWord (h : r.Tracks l ended) (hr : r.mode = .plain) :
    r.endWord.Tracks Lexer.start (ended ++ l.finish) where
  mode := hr
  word := rfl
  words := by simp [LineReader.endWord, h.words, h.finish_eq (by simp [hr])]
  gap _ := rfl

theorem Tracks.enter (h : r.Tracks l ended) (hr : r.mode = .plain) {c : Char} (hbar : c ≠ '|')
    (hb : Text.isBlank c = false) :
    (r.step c).Tracks (l.enter c) ended ∧ (r.step c).stages = r.stages := by
  by_cases ha : c = apostrophe
  · have hs : r.step c = r.mark .single := by
      subst c
      rw [LineReader.step, hr]
      rfl
    subst c
    exact hs ▸ ⟨h.mark (m := .single) (by simp), rfl⟩
  by_cases hq : c = quotationMark
  · have hs : r.step c = r.mark .double := by
      subst c
      rw [LineReader.step, hr]
      rfl
    subst c
    exact hs ▸ ⟨h.mark (m := .double) (by simp), rfl⟩
  by_cases he : c = backslash
  · have hs : r.step c = r.mark (.escape false) := by
      subst c
      rw [LineReader.step, hr]
      rfl
    subst c
    exact hs ▸ ⟨h.mark (m := .bareEscape) (by simp), rfl⟩
  have hs : r.step c = r.keep c .plain := by simp [LineReader.step, hr, hbar, hb, ha, hq, he]
  have hl : l.enter c = { l with mode := .bare, word := c :: l.word } := by
    simp [Lexer.enter, ha, hq, he]
  rw [hs, hl]
  exact ⟨h.keep (m := .bare) (by simp) c, rfl⟩

end

/-- A character that does not cut leaves the one reader in step with the reader of words. -/
theorem Tracks.step {r : LineReader} {l : Lexer} {ended : List Word} (h : r.Tracks l ended)
    {c : Char} (hc : r.mode.cuts c = false) :
    (r.step c).Tracks (l.step c).2 (ended ++ (l.step c).1) ∧ (r.step c).stages = r.stages := by
  -- Between words and in the open part of one, white space ends the word and the rest goes on.
  have hopen : l.mode = .gap ∨ l.mode = .bare →
      (r.step c).Tracks (l.step c).2 (ended ++ (l.step c).1) ∧ (r.step c).stages = r.stages := by
    intro hl
    have hr : r.mode = .plain := by
      rw [h.mode]
      rcases hl with hl | hl <;> rw [hl] <;> rfl
    have hbar : c ≠ '|' := by simpa [ScanMode.cuts, hr] using hc
    by_cases hb : Text.isBlank c = true
    · have hs : r.step c = r.endWord := by simp [LineReader.step, hr, hbar, hb]
      have hl' : l.step c = (l.finish, Lexer.start) := by
        rcases hl with hl | hl <;> simp [Lexer.step, hl, hb]
      rw [hs, hl']
      exact ⟨h.endWord hr, rfl⟩
    · have hl' : l.step c = ([], l.enter c) := by
        rcases hl with hl | hl <;> simp [Lexer.step, hl, hb]
      rw [hl', List.append_nil]
      exact h.enter hr hbar (by simpa using hb)
  cases hm : l.mode with
  | gap => exact hopen (.inl hm)
  | bare => exact hopen (.inr hm)
  | bareEscape =>
    have hr : r.mode = .escape false := by rw [h.mode, hm]; rfl
    simpa [LineReader.step, hr, Lexer.step, hm] using ⟨h.keep (m := .bare) (by simp) c, rfl⟩
  | single =>
    have hr : r.mode = .single := by rw [h.mode, hm]; rfl
    by_cases ha : c = apostrophe
    · simpa [LineReader.step, hr, Lexer.step, hm, ha, LexMode.scan]
        using h.turn (m := .bare) (by simp [hm]) (by simp)
    · simpa [LineReader.step, hr, Lexer.step, hm, ha] using ⟨h.keep (m := .single) (by simp) c, rfl⟩
  | double =>
    have hr : r.mode = .double := by rw [h.mode, hm]; rfl
    have hne : backslash ≠ quotationMark := by decide
    by_cases hq : c = quotationMark
    · simpa [LineReader.step, hr, Lexer.step, hm, hq, LexMode.scan]
        using h.turn (m := .bare) (by simp [hm]) (by simp)
    · by_cases he : c = backslash
      · simpa [LineReader.step, hr, Lexer.step, hm, he, hne, LexMode.scan]
          using h.turn (m := .doubleEscape) (by simp [hm]) (by simp)
      · simpa [LineReader.step, hr, Lexer.step, hm, hq, he]
          using ⟨h.keep (m := .double) (by simp) c, rfl⟩
  | doubleEscape =>
    have hr : r.mode = .escape true := by rw [h.mode, hm]; rfl
    by_cases he : Lexer.isMarkEscape c = true
    · simpa [LineReader.step, hr, Lexer.step, hm, he]
        using ⟨h.keep (m := .double) (by simp) c, rfl⟩
    · simpa [LineReader.step, hr, Lexer.step, hm, he]
        using ⟨(h.keep (m := .double) (by simp) backslash).keep (m := .double) (by simp) c, rfl⟩

theorem Tracks.finish {r : LineReader} {l : Lexer} {ended : List Word} (h : r.Tracks l ended) :
    r.finish = r.stages ++ [ended ++ l.finish] := by
  cases hr : r.mode with
  | escape inDouble =>
    simp [LineReader.finish, hr, h.finish_escape hr, endStage, LineReader.keep, h.words]
  | _ => simp [LineReader.finish, hr, h.finish_eq (by simp [hr]), endStage, h.words]

theorem tracks_endStage {r : LineReader} (hr : r.mode = .plain) :
    r.endStage.Tracks Lexer.start [] where
  mode := hr
  word := rfl
  words := rfl
  gap _ := rfl

/-- One reading of the rest of a line, from within a segment, against the two passes over it: the
same words, and one bar for each segment but the last, which alone may end within quotation. -/
theorem Tracks.segments {r : LineReader} (done : List Char)
    (h : r.Tracks (Lexer.start.run done.reverse) (Lexer.start.ended done.reverse))
    (cs : List Char) :
    (cs.foldl LineReader.step r).finish =
      r.stages ++ (segmentsFrom r.mode done cs).map Lexer.start.words ∧
    (segmentsFrom r.mode done cs).length = r.bars cs + 1 ∧
    ∀ s ∈ (segmentsFrom r.mode done cs).dropLast, (Lexer.start.run s).mode.scan = .plain := by
  induction cs generalizing r done with
  | nil => simp [segmentsFrom, h.finish, Lexer.words_eq, bars]
  | cons c cs ih =>
    by_cases hc : r.mode.cuts c = true
    · have hr : r.mode = .plain ∧ c = '|' := by simpa [ScanMode.cuts] using hc
      have hs : r.step c = r.endStage := by simp [LineReader.step, hr]
      have hw : Lexer.start.words done.reverse = r.words ++ r.word.toList := by
        rw [Lexer.words_eq, h.words, h.finish_eq (by simp [hr])]
      have hm : r.endStage.mode = .plain := hr.1
      obtain ⟨hstages, hlength, hclosed⟩ := ih [] (tracks_endStage hr.1)
      rw [hm] at hstages hlength hclosed
      have hcut : segmentsFrom r.mode done (c :: cs) =
          done.reverse :: segmentsFrom .plain [] cs := by rw [segmentsFrom, if_pos hc]
      rw [hcut, List.foldl_cons, hs, hstages, bars, if_pos hc, hs, List.length_cons, hlength]
      refine ⟨by simp [endStage, hw], by omega, ?_⟩
      rw [List.dropLast_cons_of_ne_nil (segmentsFrom_ne_nil _ _ _), List.forall_mem_cons]
      exact ⟨by rw [← h.mode, hr.1], hclosed⟩
    · have hc' : r.mode.cuts c = false := by simpa using hc
      have hh := h.step hc'
      have hmode : (r.step c).mode = r.mode.step c := by
        rw [hh.1.mode, Lexer.scan_step, ← h.mode]
      have hcut : segmentsFrom r.mode done (c :: cs) =
          segmentsFrom (r.step c).mode (c :: done) cs := by rw [segmentsFrom, if_neg hc, hmode]
      have hi := ih (r := r.step c) (c :: done) (by simpa [Lexer.ended] using hh.1)
      rw [hcut, List.foldl_cons, bars, if_neg hc, Nat.zero_add, ← hh.2]
      exact hi

end LineReader

theorem LexMode.scan_eq_plain {m : LexMode} : m.scan = .plain ↔ m = .gap ∨ m = .bare := by
  cases m <;> simp [scan]

/-- Cutting a line into segments and reading the words of each gives what one reading of the line
gives, words and quoted flags alike. Every segment but the last ends outside quotation and without
a backslash that waits, and the stages of the parsed line are one more than the bars that the one
reader meets in plain mode. -/
theorem segments_onePass (line : String) :
    (segments line).map Word.ofSegment = LineReader.stagesOf line ∧
    (∀ s ∈ (segments line).dropLast,
      (Lexer.start.run s.toList).mode = .gap ∨ (Lexer.start.run s.toList).mode = .bare) ∧
    (Pipeline.parse line).size = LineReader.start.bars line.toList + 1 := by
  have h : LineReader.start.Tracks Lexer.start [] := ⟨rfl, rfl, rfl, fun _ => rfl⟩
  obtain ⟨hstages, hlength, hclosed⟩ := h.segments [] line.toList
  refine ⟨?_, ?_, ?_⟩
  · rw [segments, List.map_map, LineReader.stagesOf, hstages]
    simp [LineReader.start, Word.ofSegment, Function.comp_def]
  · intro s hs
    rw [segments, ← List.map_dropLast, List.mem_map] at hs
    obtain ⟨cs, hcs, rfl⟩ := hs
    rw [String.toList_ofList]
    exact LexMode.scan_eq_plain.mp (hclosed cs hcs)
  · rw [Pipeline.size_parse, segments, List.length_map]
    exact hlength

end PipelineShell
