import Mathlib.Data.List.Induction
import PipelineShell.Proofs.Lexing.Words

/-! The pieces that words are made of. A text begins with one piece at most, and the reader of words
takes a piece for its value wherever a word may begin or go on. -/

namespace PipelineShell

/-- The two marks that open a quotation and close it. -/
inductive Mark
  | apostrophe
  | quotation
deriving DecidableEq

namespace Mark

def char : Mark → Char
  | apostrophe => PipelineShell.apostrophe
  | quotation => quotationMark

/-- The characters behind the mark that opens end in a backslash that is active: one that is not
itself escaped. Within apostrophes no backslash is. -/
def escaping : Mark → List Char → Bool
  | apostrophe, _ => false
  | quotation, cs => cs.foldl (fun active c => c = backslash && !active) false

/-- No mark among the characters closes the quotation. -/
def Within (m : Mark) (cs : List Char) : Prop :=
  ∀ before after, cs = before ++ m.char :: after → m.escaping before = true

end Mark

def unescape : List Char → List Char
  | [] => []
  | [c] => [c]
  | a :: b :: cs =>
    if a = backslash then
      if Lexer.isMarkEscape b then b :: unescape cs else a :: b :: unescape cs
    else a :: unescape (b :: cs)

def Mark.value : Mark → List Char → List Char
  | apostrophe, cs => cs
  | quotation, cs => unescape cs

/-- A piece of a word. A quotation is closed by the next mark that is not escaped, or it is left
open; `trailing` is a backslash with nothing behind it. -/
inductive Piece
  | plain (c : Char) (h : isOpen c = true)
  | escaped (c : Char)
  | quoted (m : Mark) (cs : List Char) (closed : Bool)
      (h : m.Within cs ∧ (closed = true → m.escaping cs = false))
  | trailing

namespace Piece

def source : Piece → List Char
  | plain c _ => [c]
  | escaped c => [backslash, c]
  | quoted m cs closed _ => m.char :: cs ++ if closed then [m.char] else []
  | trailing => [backslash]

def value : Piece → List Char
  | plain c _ => [c]
  | escaped c => [c]
  | quoted m cs _ _ => m.value cs
  | trailing => [backslash]

def isPlain : Piece → Bool
  | plain .. => true
  | _ => false

/-- The piece is cut off by the end of the segment. -/
def isCutOff : Piece → Bool
  | quoted _ _ closed _ => !closed
  | trailing => true
  | _ => false

end Piece

theorem isOpen_iff {c : Char} : isOpen c = true ↔ Text.isBlank c = false ∧ c ≠ apostrophe ∧
    c ≠ quotationMark ∧ c ≠ backslash := by
  simp [isOpen, and_assoc]

namespace Mark

theorem char_ne_backslash (m : Mark) : m.char ≠ backslash := by
  cases m <;> decide

theorem not_isBlank_char (m : Mark) : Text.isBlank m.char = false := by
  cases m <;> decide

theorem char_inj {m n : Mark} (h : m.char = n.char) : m = n := by
  revert h
  cases m <;> cases n <;> decide

theorem ne_char_of_isOpen {c : Char} (h : isOpen c = true) (m : Mark) : c ≠ m.char := by
  have hc := isOpen_iff.mp h
  cases m
  · exact hc.2.1
  · exact hc.2.2.1

theorem Within.closed_unique {m : Mark} {cs ds r r' : List Char} (hc : m.Within cs)
    (hd : m.Within ds) (hcs : m.escaping cs = false) (hds : m.escaping ds = false)
    (h : cs ++ m.char :: r = ds ++ m.char :: r') : cs = ds ∧ r = r' := by
  rcases List.append_eq_append_iff.mp h with ⟨as, rfl, hr⟩ | ⟨as, rfl, hr⟩
  · cases as with
    | nil => simpa using hr
    | cons a as =>
      have ha : m.char = a := (List.cons.inj hr).1
      have hesc := hd cs as (by rw [ha])
      simp [hcs] at hesc
  · cases as with
    | nil => simpa using hr.symm
    | cons a as =>
      have ha : m.char = a := (List.cons.inj hr).1
      have hesc := hc ds as (by rw [ha])
      simp [hds] at hesc

theorem Within.open_ne_closed {m : Mark} {cs ds r : List Char} (hd : m.Within ds)
    (hcs : m.escaping cs = false) : cs ++ m.char :: r ≠ ds := by
  rintro rfl
  have hesc := hd cs r rfl
  simp [hcs] at hesc

theorem closed_or_within (m : Mark) (cs : List Char) :
    (∃ body rest, cs = body ++ m.char :: rest ∧ m.Within body ∧ m.escaping body = false) ∨
      m.Within cs := by
  induction cs using List.reverseRecOn with
  | nil => exact .inr fun before after h => by simp at h
  | append_singleton cs c ih =>
    rcases ih with ⟨body, rest, rfl, hbody⟩ | hcs
    · exact .inl ⟨body, rest ++ [c], by simp, hbody⟩
    · by_cases hc : c = m.char ∧ m.escaping cs = false
      · exact .inl ⟨cs, [], by simp [hc.1], hcs, hc.2⟩
      · refine .inr fun before after h => ?_
        rcases List.eq_nil_or_concat after with rfl | ⟨after, d, rfl⟩
        · have hsplit := List.append_inj' h rfl
          have hchar : c = m.char := (List.cons.inj hsplit.2).1
          have hesc : ¬m.escaping cs = false := fun he => hc ⟨hchar, he⟩
          rw [← hsplit.1]
          simpa using hesc
        · have hsplit : cs = before ++ m.char :: after := by
            have h' : cs ++ [c] = (before ++ m.char :: after) ++ [d] := by simpa using h
            exact (List.append_inj' h' rfl).1
          exact hcs before after hsplit

theorem escaping_pair (b : Char) (cs : List Char) :
    quotation.escaping (backslash :: b :: cs) = quotation.escaping cs := by
  simp [escaping]

theorem escaping_cons {a : Char} (ha : a ≠ backslash) (cs : List Char) :
    quotation.escaping (a :: cs) = quotation.escaping cs := by
  simp [escaping, ha]

theorem Within.pair {b : Char} {cs : List Char} (h : quotation.Within (backslash :: b :: cs)) :
    quotation.Within cs := by
  intro before after hcs
  have hesc := h (backslash :: b :: before) after (by rw [hcs]; rfl)
  rwa [escaping_pair] at hesc

theorem Within.tail {a : Char} (ha : a ≠ backslash) {cs : List Char}
    (h : quotation.Within (a :: cs)) : quotation.Within cs := by
  intro before after hcs
  have hesc := h (a :: before) after (by rw [hcs]; rfl)
  rwa [escaping_cons ha] at hesc

theorem Within.head_ne {a : Char} {m : Mark} {cs : List Char} (h : m.Within (a :: cs)) :
    a ≠ m.char := by
  rintro rfl
  have hesc := h [] cs rfl
  cases m <;> simp [escaping] at hesc

end Mark

namespace Piece

variable {p q : Piece}

theorem exists_source_eq_cons (p : Piece) :
    ∃ c cs, p.source = c :: cs ∧ Text.isBlank c = false := by
  cases p with
  | plain c h => exact ⟨c, [], rfl, (isOpen_iff.mp h).1⟩
  | escaped c => exact ⟨backslash, [c], rfl, by decide⟩
  | quoted m cs closed h => exact ⟨m.char, _, rfl, m.not_isBlank_char⟩
  | trailing => exact ⟨backslash, [], rfl, by decide⟩

theorem source_append_inj {r r' : List Char} (hp : p.isCutOff = true → r = [])
    (hq : q.isCutOff = true → r' = []) (h : p.source ++ r = q.source ++ r') :
    p = q ∧ r = r' := by
  cases p with
  | plain c hc =>
    have hopen := isOpen_iff.mp hc
    cases q with
    | plain d hd =>
      obtain ⟨rfl, rfl⟩ := List.cons.inj h
      exact ⟨rfl, rfl⟩
    | escaped d => exact absurd (List.cons.inj h).1 hopen.2.2.2
    | quoted m ds closed hd => exact absurd (List.cons.inj h).1 (Mark.ne_char_of_isOpen hc m)
    | trailing => exact absurd (List.cons.inj h).1 hopen.2.2.2
  | escaped c =>
    cases q with
    | plain d hd => exact absurd (List.cons.inj h).1.symm (isOpen_iff.mp hd).2.2.2
    | escaped d =>
      obtain ⟨rfl, rfl⟩ := List.cons.inj (List.cons.inj h).2
      exact ⟨rfl, rfl⟩
    | quoted m ds closed hd => exact absurd (List.cons.inj h).1.symm m.char_ne_backslash
    | trailing =>
      have htail : c :: r = r' := (List.cons.inj h).2
      rw [hq rfl] at htail
      cases htail
  | trailing =>
    cases q with
    | plain d hd => exact absurd (List.cons.inj h).1.symm (isOpen_iff.mp hd).2.2.2
    | escaped d =>
      have htail : r = d :: r' := (List.cons.inj h).2
      rw [hp rfl] at htail
      cases htail
    | quoted m ds closed hd => exact absurd (List.cons.inj h).1.symm m.char_ne_backslash
    | trailing => exact ⟨rfl, (List.cons.inj h).2⟩
  | quoted m cs closed hm =>
    cases q with
    | plain d hd => exact absurd (List.cons.inj h).1.symm (Mark.ne_char_of_isOpen hd m)
    | escaped d => exact absurd (List.cons.inj h).1 m.char_ne_backslash
    | trailing => exact absurd (List.cons.inj h).1 m.char_ne_backslash
    | quoted n ds closed' hn =>
      obtain rfl : m = n := Mark.char_inj (List.cons.inj h).1
      have htail := (List.cons.inj h).2
      cases closed with
      | true =>
        cases closed' with
        | true =>
          have hsame : cs ++ m.char :: r = ds ++ m.char :: r' := by simpa using htail
          obtain ⟨rfl, rfl⟩ := hm.1.closed_unique hn.1 (hm.2 rfl) (hn.2 rfl) hsame
          exact ⟨rfl, rfl⟩
        | false =>
          have hends : cs ++ m.char :: r = ds := by simpa [hq rfl] using htail
          exact absurd hends (hn.1.open_ne_closed (hm.2 rfl))
      | false =>
        cases closed' with
        | true =>
          have hends : ds ++ m.char :: r' = cs := by simpa [hp rfl] using htail.symm
          exact absurd hends (hm.1.open_ne_closed (hn.2 rfl))
        | false =>
          have hr := hp rfl
          have hr' := hq rfl
          obtain rfl : cs = ds := by simpa [hr, hr'] using htail
          exact ⟨rfl, hr.trans hr'.symm⟩

theorem exists_source_append {c : Char} (hc : Text.isBlank c = false) (cs : List Char) :
    ∃ (p : Piece) (r : List Char), c :: cs = p.source ++ r ∧ (p.isCutOff = true → r = []) := by
  have hquoted : ∀ m : Mark, ∃ (p : Piece) (r : List Char),
      m.char :: cs = p.source ++ r ∧ (p.isCutOff = true → r = []) := by
    intro m
    rcases m.closed_or_within cs with ⟨body, rest, rfl, hbody, hesc⟩ | hcs
    · exact ⟨.quoted m body true ⟨hbody, fun _ => hesc⟩, rest, by simp [source], nofun⟩
    · exact ⟨.quoted m cs false ⟨hcs, nofun⟩, [], by simp [source], fun _ => rfl⟩
  by_cases hb : c = backslash
  · subst hb
    cases cs with
    | nil => exact ⟨.trailing, [], rfl, fun _ => rfl⟩
    | cons d cs => exact ⟨.escaped d, cs, rfl, nofun⟩
  · by_cases ha : c = apostrophe
    · subst ha
      exact hquoted .apostrophe
    · by_cases hq : c = quotationMark
      · subst hq
        exact hquoted .quotation
      · exact ⟨.plain c (isOpen_iff.mpr ⟨hc, ha, hq, hb⟩), cs, rfl, nofun⟩

end Piece

namespace Lexer

def take (l : Lexer) (p : Piece) : Lexer :=
  ⟨.bare, p.value.reverse ++ l.word, l.quoted || !p.isPlain⟩

theorem words_apostrophe {cs : List Char} (h : Mark.apostrophe.Within cs) (word rest : List Char) :
    (Lexer.mk .single word true).words (cs ++ rest) =
      (Lexer.mk .single (cs.reverse ++ word) true).words rest := by
  induction cs generalizing word with
  | nil => rfl
  | cons c cs ih =>
    have hc : c ≠ apostrophe := h.head_ne
    have hcs : Mark.apostrophe.Within cs := fun before after hsplit =>
      h (c :: before) after (by rw [hsplit]; rfl)
    have hstep : (Lexer.mk .single word true).words (c :: (cs ++ rest)) =
        (Lexer.mk .single (c :: word) true).words (cs ++ rest) := by
      simp [words, step, hc]
    rw [List.cons_append, hstep, ih hcs]
    simp

/-- Within quotation marks the value is read. A backslash that is left at the end of the segment is
part of it. -/
theorem words_quotation {cs rest : List Char} (h : Mark.quotation.Within cs)
    (hrest : Mark.quotation.escaping cs = true → rest = []) (word : List Char) :
    (Lexer.mk .double word true).words (cs ++ rest) =
      (Lexer.mk .double ((unescape cs).reverse ++ word) true).words rest := by
  -- The recursion is that of `unescape`, which takes a backslash together with what it stands before.
  induction cs using unescape.induct generalizing word with
  | case1 => rfl
  | case2 a =>
    have ha : a ≠ quotationMark := h.head_ne
    by_cases hb : a = backslash
    · subst hb
      rw [hrest (by decide)]
      rfl
    · simp [words, step, unescape, ha, hb]
  | case3 b cs hb ih =>
    have hmark : backslash ≠ quotationMark := by decide
    have hih := ih h.pair (by rwa [Mark.escaping_pair] at hrest) (b :: word)
    simpa [words, step, unescape, hmark, hb] using hih
  | case4 b cs hb ih =>
    have hmark : backslash ≠ quotationMark := by decide
    have hih := ih h.pair (by rwa [Mark.escaping_pair] at hrest) (b :: backslash :: word)
    simpa [words, step, unescape, hmark, hb] using hih
  | case5 a b cs ha ih =>
    have hmark : a ≠ quotationMark := h.head_ne
    have hih := ih (h.tail ha) (by rwa [Mark.escaping_cons ha] at hrest) (a :: word)
    have hstep : (Lexer.mk .double word true).words (a :: (b :: cs ++ rest)) =
        (Lexer.mk .double (a :: word) true).words (b :: cs ++ rest) := by
      simp [words, step, hmark, ha]
    rw [List.cons_append, hstep, hih]
    simp [unescape, ha]

theorem words_piece {l : Lexer} (hl : l.mode = .gap ∨ l.mode = .bare) (p : Piece)
    {rest : List Char} (hrest : p.isCutOff = true → rest = []) :
    l.words (p.source ++ rest) = (l.take p).words rest := by
  have henter : ∀ c cs, Text.isBlank c = false → l.words (c :: cs) = (l.enter c).words cs := by
    intro c cs hc
    rcases hl with hl | hl <;> simp [words, step, hl, hc]
  cases p with
  | plain c hc =>
    rw [Piece.source, List.singleton_append, henter c _ (isOpen_iff.mp hc).1, enter_open hc]
    simp [take, Piece.value, Piece.isPlain]
  | escaped c =>
    rw [Piece.source, List.cons_append, henter _ _ (by decide)]
    simp [enter, words, step, take, Piece.value, Piece.isPlain]
  | trailing =>
    rw [Piece.source, List.singleton_append, henter _ _ (by decide), hrest rfl]
    simp [enter, words, finish, take, Piece.value, Piece.isPlain]
  | quoted m cs closed h =>
    have htaken : l.take (.quoted m cs closed h) =
        ⟨.bare, (m.value cs).reverse ++ l.word, true⟩ := by
      simp [take, Piece.value, Piece.isPlain]
    rw [Piece.source, List.cons_append, List.cons_append, List.append_assoc,
      henter _ _ m.not_isBlank_char, htaken]
    cases m with
    | apostrophe =>
      have hopen : l.enter Mark.apostrophe.char = ⟨.single, l.word, true⟩ := by
        simp [enter, Mark.char, show apostrophe ≠ backslash by decide]
      rw [hopen, words_apostrophe h.1]
      cases closed with
      | true => simp [words, step, Mark.char, Mark.value]
      | false => simp [hrest rfl, words, finish, Mark.value]
    | quotation =>
      have hopen : l.enter Mark.quotation.char = ⟨.double, l.word, true⟩ := by
        simp [enter, Mark.char, show quotationMark ≠ backslash by decide,
          show quotationMark ≠ apostrophe by decide]
      have hend : Mark.quotation.escaping cs = true →
          (if closed = true then [Mark.quotation.char] else []) ++ rest = [] := by
        intro hesc
        cases closed with
        | true => simp [h.2 rfl] at hesc
        | false => simpa using hrest rfl
      rw [hopen, words_quotation h.1 hend]
      cases closed with
      | true => simp [words, step, Mark.char, Mark.value]
      | false => simp [hrest rfl, words, finish, Mark.value]

end Lexer

end PipelineShell
