import PipelineShell.Proofs.Lexing.Segments
import PipelineShell.Word.Lexer

/-! How the reader of words goes on from the middle of a segment, and that a quoted text is read as
the one word it was written from. -/

namespace PipelineShell

namespace Lexer

def run (l : Lexer) (cs : List Char) : Lexer :=
  cs.foldl (fun l c => (l.step c).2) l

def ended (l : Lexer) : List Char → List Word
  | [] => []
  | c :: cs => (l.step c).1 ++ (l.step c).2.ended cs

@[simp] theorem run_nil (l : Lexer) : l.run [] = l := rfl

@[simp] theorem run_cons (l : Lexer) (c : Char) (cs : List Char) :
    l.run (c :: cs) = (l.step c).2.run cs := rfl

@[simp] theorem run_append (l : Lexer) (cs ds : List Char) :
    l.run (cs ++ ds) = (l.run cs).run ds :=
  List.foldl_append

@[simp] theorem ended_append (l : Lexer) (cs ds : List Char) :
    l.ended (cs ++ ds) = l.ended cs ++ (l.run cs).ended ds := by
  induction cs generalizing l with
  | nil => rfl
  | cons c cs ih => simp [ended, ih, List.append_assoc]

theorem words_eq (l : Lexer) (cs : List Char) : l.words cs = l.ended cs ++ (l.run cs).finish := by
  induction cs generalizing l with
  | nil => rfl
  | cons c cs ih => simp [words, ended, ih, List.append_assoc]

def inWord (cs : List Char) (quoted : Bool) : Lexer := ⟨.bare, cs.reverse, quoted⟩

theorem finish_inWord (cs : List Char) (quoted : Bool) :
    (inWord cs quoted).finish = [⟨String.ofList cs, quoted⟩] := by
  simp [inWord, finish]

/-- White space ends the word that was begun, and is skipped between words. -/
theorem words_blank {l : Lexer} {c : Char} (hl : l.mode = .gap ∨ l.mode = .bare)
    (hc : Text.isBlank c = true) (cs : List Char) :
    l.words (c :: cs) = l.finish ++ start.words cs := by
  rcases hl with hl | hl <;> simp [words, step, hl, hc]

theorem start_words_blank {c : Char} (hc : Text.isBlank c = true) (cs : List Char) :
    start.words (c :: cs) = start.words cs :=
  words_blank (.inl rfl) hc cs

end Lexer

/-- A text that is read as one word, which goes on as far as the text behind it allows. -/
def ReadsAs (cs : List Char) (w : Word) : Prop :=
  ∀ rest, Lexer.start.words (cs ++ rest) = (Lexer.inWord w.text.toList w.quoted).words rest

namespace ReadsAs

theorem last {cs : List Char} {w : Word} (h : ReadsAs cs w) : Lexer.start.words cs = [w] := by
  have hh := h []
  rw [List.append_nil] at hh
  simp [hh, Lexer.words, Lexer.finish_inWord]

theorem blank {cs : List Char} {w : Word} (h : ReadsAs cs w) {c : Char}
    (hc : Text.isBlank c = true) (rest : List Char) :
    Lexer.start.words (cs ++ c :: rest) = w :: Lexer.start.words rest := by
  rw [h, Lexer.words_blank (.inr rfl) hc, Lexer.finish_inWord]
  simp

end ReadsAs

/-- The characters that mean themselves and end no word. -/
def isOpen (c : Char) : Bool :=
  !Text.isBlank c && c ≠ apostrophe && c ≠ quotationMark && c ≠ backslash

theorem toNat_of_isSafe {c : Char} (h : isSafe c = true) : 33 ≤ c.toNat ∧ c.toNat ≤ 122 := by
  delta isSafe Char.isAlphanum Char.isAlpha Char.isUpper Char.isLower Char.isDigit at h
  simp only [Bool.or_eq_true, Bool.and_eq_true, decide_eq_true_eq, beq_iff_eq,
    UInt32.le_iff_toNat_le, ge_iff_le] at h
  change ((((((((((((65 ≤ c.toNat ∧ c.toNat ≤ 90) ∨ (97 ≤ c.toNat ∧ c.toNat ≤ 122)) ∨
    (48 ≤ c.toNat ∧ c.toNat ≤ 57)) ∨ c = '_') ∨ c = '@') ∨ c = '%') ∨ c = '+') ∨ c = '=') ∨
    c = ':') ∨ c = ',') ∨ c = '.') ∨ c = '/') ∨ c = '-' at h
  rcases h with (((((((((((h | h) | h) | h) | h) | h) | h) | h) | h) | h) | h) | h) | h
  all_goals first | omega | (subst h; decide)

theorem isOpen_of_isSafe {c : Char} (h : isSafe c = true) : isOpen c = true := by
  have hn := toNat_of_isSafe h
  have hb : Text.isBlank c = false := by
    simp [Text.isBlank]
    omega
  have hp := isPlain_of_isSafe h
  simp only [ScanMode.isPlain, Bool.and_eq_true] at hp
  simp [isOpen, hb, hp]

namespace Lexer

theorem enter_open {c : Char} (h : isOpen c = true) (l : Lexer) :
    l.enter c = { l with mode := .bare, word := c :: l.word } := by
  have hc : Text.isBlank c = false ∧ c ≠ apostrophe ∧ c ≠ quotationMark ∧ c ≠ backslash := by
    simpa [isOpen, and_assoc] using h
  simp [enter, hc]

theorem words_open {c : Char} (h : isOpen c = true) {l : Lexer}
    (hl : l.mode = .gap ∨ l.mode = .bare) (cs : List Char) :
    l.words (c :: cs) = Lexer.words { l with mode := .bare, word := c :: l.word } cs := by
  have hb : Text.isBlank c = false := by
    simp only [isOpen, Bool.and_eq_true, Bool.not_eq_true'] at h
    exact h.1.1.1
  rcases hl with hl | hl <;> simp [words, step, hl, hb, enter_open h]

theorem words_inWord_open (cs : List Char) (h : ∀ c ∈ cs, isOpen c = true)
    (before : List Char) (quoted : Bool) (rest : List Char) :
    (inWord before quoted).words (cs ++ rest) = (inWord (before ++ cs) quoted).words rest := by
  induction cs generalizing before with
  | nil => simp
  | cons c cs ih =>
    have hh := ih (fun d hd => h d (by simp [hd])) (before ++ [c])
    rw [List.cons_append, words_open (h c (by simp)) (.inr rfl)]
    simpa [inWord, List.append_assoc] using hh

theorem words_single_quoteChar (c : Char) (word rest : List Char) :
    (Lexer.mk .single word true).words (quoteChar c ++ rest) =
      (Lexer.mk .single (c :: word) true).words rest := by
  by_cases hc : c = apostrophe
  · subst c
    rfl
  · simp [quoteChar, hc, words, step]

theorem words_single_quoted (cs word rest : List Char) :
    (Lexer.mk .single word true).words (cs.flatMap quoteChar ++ rest) =
      (Lexer.mk .single (cs.reverse ++ word) true).words rest := by
  induction cs generalizing word with
  | nil => rfl
  | cons c cs ih =>
    rw [List.flatMap_cons, List.append_assoc, words_single_quoteChar, ih]
    simp

end Lexer

theorem readsAs_of_open (cs : List Char) (h : ∀ c ∈ cs, isOpen c = true) (hne : cs ≠ []) :
    ReadsAs cs ⟨String.ofList cs, false⟩ := by
  intro rest
  cases cs with
  | nil => exact absurd rfl hne
  | cons c cs =>
    have hh := Lexer.words_inWord_open cs (fun d hd => h d (by simp [hd])) [c] false rest
    rw [List.cons_append, Lexer.words_open (h c (by simp)) (.inl rfl)]
    simpa [Lexer.inWord, Lexer.start] using hh

/-- A text is written plainly if it is not empty and holds safe characters alone. -/
def isBareText (s : String) : Bool :=
  s.toList.all isSafe && !s.toList.isEmpty

theorem readsAs_quote (s : String) : ReadsAs (quote s).toList ⟨s, !isBareText s⟩ := by
  by_cases hs : isBareText s = true
  · have hall := Bool.and_eq_true_iff.mp hs
    have hh := readsAs_of_open s.toList
      (fun c hc => isOpen_of_isSafe (List.all_eq_true.mp hall.1 c hc)) (by simpa using hall.2)
    simpa [quote, quoteChars, hs, isBareText, hall] using hh
  · intro rest
    have hq : quoteChars s.toList = apostrophe :: s.toList.flatMap quoteChar ++ [apostrophe] :=
      if_neg hs
    have hopen : ∀ cs, Lexer.start.words (apostrophe :: cs) = (Lexer.mk .single [] true).words cs :=
      fun _ => rfl
    have hclose : ∀ word cs, (Lexer.mk .single word true).words (apostrophe :: cs) =
      (Lexer.mk .bare word true).words cs := fun _ _ => rfl
    rw [quote, String.toList_ofList, hq, List.append_assoc, List.cons_append, hopen,
      Lexer.words_single_quoted, List.singleton_append, hclose]
    simp [Lexer.inWord, hs]

end PipelineShell
