import Mathlib.Data.List.Chain
import PipelineShell.Proofs.Lexing.Grammar

/-! The layout of a segment in runs of white space and words, each as long as it can be. Every
segment has one layout, and the reader of words gives the words of it. -/

namespace PipelineShell

/-- A run of white space, or a word made of pieces. -/
inductive Chunk
  | gap (cs : List Char)
  | word (ps : List Piece)

namespace Chunk

def isWord : Chunk → Bool
  | gap _ => false
  | word _ => true

def source : Chunk → List Char
  | gap cs => cs
  | word ps => ps.flatMap Piece.source

def words : Chunk → List Word
  | gap _ => []
  | word ps => [⟨String.ofList (ps.flatMap Piece.value), ps.any fun p => !p.isPlain⟩]

def IsFull : Chunk → Prop
  | gap cs => cs ≠ [] ∧ ∀ c ∈ cs, Text.isBlank c = true
  | word ps => ps ≠ []

end Chunk

namespace Layout

def source (chunks : List Chunk) : List Char :=
  chunks.flatMap Chunk.source

def words (chunks : List Chunk) : List Word :=
  chunks.flatMap Chunk.words

end Layout

/-- Words and runs of white space take turns, which makes each as long as it can be. A piece that
is cut off is the last one of the segment. -/
structure IsLayout (chunks : List Chunk) : Prop where
  full : ∀ k ∈ chunks, k.IsFull
  alternating : chunks.IsChain fun k l => k.isWord ≠ l.isWord
  cutOff_last : ∀ before ps p qs after, chunks = before ++ .word (ps ++ p :: qs) :: after →
    p.isCutOff = true → qs = [] ∧ after = []

theorem Chunk.IsFull.exists_source_eq_cons {k : Chunk} (h : k.IsFull) :
    ∃ c cs, k.source = c :: cs ∧ Text.isBlank c = !k.isWord := by
  cases k with
  | gap cs =>
    obtain ⟨hne, hblank⟩ := h
    cases cs with
    | nil => exact absurd rfl hne
    | cons c cs => exact ⟨c, cs, rfl, hblank c (by simp)⟩
  | word ps =>
    cases ps with
    | nil => exact absurd rfl h
    | cons p ps =>
      obtain ⟨c, cs, hp, hc⟩ := p.exists_source_eq_cons
      exact ⟨c, cs ++ ps.flatMap Piece.source, by simp [source, hp], hc⟩

/-- Only the last of the pieces is cut off, and only if nothing is behind it. -/
def Piece.InRow (ps : List Piece) (rest : List Char) : Prop :=
  ∀ before p after, ps = before ++ p :: after → p.isCutOff = true → after = [] ∧ rest = []

namespace Piece.InRow

theorem tail {p : Piece} {ps : List Piece} {rest : List Char} (h : InRow (p :: ps) rest) :
    InRow ps rest := by
  rintro before q after rfl
  exact h (p :: before) q after rfl

theorem head {p : Piece} {ps : List Piece} {rest : List Char} (h : InRow (p :: ps) rest)
    (hp : p.isCutOff = true) : ps.flatMap source ++ rest = [] := by
  obtain ⟨rfl, rfl⟩ := h [] p ps rfl hp
  rfl

theorem nil (rest : List Char) : InRow [] rest := by
  simp [InRow]

theorem cons {p : Piece} {ps : List Piece} {rest : List Char} (h : InRow ps rest)
    (hp : p.isCutOff = true → ps.flatMap source ++ rest = []) : InRow (p :: ps) rest := by
  rintro before q after hsplit hq
  cases before with
  | cons b before => exact h before q after (List.cons.inj hsplit).2 hq
  | nil =>
    obtain ⟨rfl, rfl⟩ := List.cons.inj hsplit
    obtain ⟨hps, hrest⟩ := List.append_eq_nil_iff.mp (hp hq)
    refine ⟨?_, hrest⟩
    cases ps with
    | nil => rfl
    | cons q ps =>
      obtain ⟨c, cs, hq, -⟩ := q.exists_source_eq_cons
      simp [hq] at hps

end Piece.InRow

namespace IsLayout

variable {k : Chunk} {ks ls : List Chunk}

theorem nil : IsLayout [] := ⟨nofun, .nil, by simp⟩

theorem tail (h : IsLayout (k :: ks)) : IsLayout ks where
  full l hl := h.full l (List.mem_cons_of_mem k hl)
  alternating := h.alternating.tail
  cutOff_last before ps p qs after hks :=
    h.cutOff_last (k :: before) ps p qs after (by rw [hks]; rfl)

theorem exists_source_eq_cons (h : IsLayout (k :: ks)) :
    ∃ c cs, Layout.source (k :: ks) = c :: cs ∧ Text.isBlank c = !k.isWord := by
  obtain ⟨c, cs, hk, hc⟩ := (h.full k (by simp)).exists_source_eq_cons
  exact ⟨c, cs ++ Layout.source ks, by simp [Layout.source, hk], hc⟩

theorem eq_nil_of_source (h : IsLayout ks) (hs : Layout.source ks = []) : ks = [] := by
  cases ks with
  | nil => rfl
  | cons k ks =>
    obtain ⟨c, cs, hk, -⟩ := h.exists_source_eq_cons
    rw [hk] at hs
    cases hs

theorem isBlank_behind (h : IsLayout (k :: ks)) {c : Char} {cs : List Char}
    (hs : Layout.source ks = c :: cs) : Text.isBlank c = k.isWord := by
  cases ks with
  | nil => cases hs
  | cons l ls =>
    obtain ⟨d, ds, hl, hd⟩ := h.tail.exists_source_eq_cons
    obtain ⟨rfl, rfl⟩ := List.cons.inj (hs.symm.trans hl)
    have hturn : k.isWord ≠ l.isWord := h.alternating.rel_head? rfl
    rw [hd]
    revert hturn
    cases k.isWord <;> cases l.isWord <;> decide

theorem inRow {ps : List Piece} (h : IsLayout (.word ps :: ks)) :
    Piece.InRow ps (Layout.source ks) := by
  rintro before p after rfl hp
  obtain ⟨hafter, rfl⟩ := h.cutOff_last [] before p after ks rfl hp
  exact ⟨hafter, rfl⟩

end IsLayout

theorem blank_append_inj {cs ds r r' : List Char} (hcs : ∀ c ∈ cs, Text.isBlank c = true)
    (hds : ∀ c ∈ ds, Text.isBlank c = true) (hr : ∀ c tl, r = c :: tl → Text.isBlank c = false)
    (hr' : ∀ c tl, r' = c :: tl → Text.isBlank c = false) (h : cs ++ r = ds ++ r') :
    cs = ds ∧ r = r' := by
  induction cs generalizing ds with
  | nil =>
    cases ds with
    | nil => exact ⟨rfl, h⟩
    | cons d ds =>
      have hblank := hds d (by simp)
      simp [hr d _ h] at hblank
  | cons c cs ih =>
    cases ds with
    | nil =>
      have hblank := hcs c (by simp)
      simp [hr' c _ h.symm] at hblank
    | cons d ds =>
      obtain ⟨rfl, htail⟩ := List.cons.inj h
      obtain ⟨rfl, hrest⟩ := ih (fun e he => hcs e (by simp [he]))
        (fun e he => hds e (by simp [he])) htail
      exact ⟨rfl, hrest⟩

/-- The pieces of a word, and where it ends, are settled by the text. -/
theorem Piece.flatMap_source_append_inj {ps qs : List Piece} {r r' : List Char}
    (hps : InRow ps r) (hqs : InRow qs r') (hr : ∀ c tl, r = c :: tl → Text.isBlank c = true)
    (hr' : ∀ c tl, r' = c :: tl → Text.isBlank c = true)
    (h : ps.flatMap source ++ r = qs.flatMap source ++ r') : ps = qs ∧ r = r' := by
  have hends : ∀ (p : Piece) (tl s : List Char),
      (∀ c tl', s = c :: tl' → Text.isBlank c = true) → s ≠ p.source ++ tl := by
    intro p tl s hs heq
    obtain ⟨c, cs, hp, hc⟩ := p.exists_source_eq_cons
    have hblank := hs c (cs ++ tl) (by rw [heq, hp]; rfl)
    simp [hc] at hblank
  induction ps generalizing qs with
  | nil =>
    cases qs with
    | nil => exact ⟨rfl, h⟩
    | cons q qs =>
      rw [List.flatMap_cons, List.append_assoc] at h
      exact absurd h (hends q _ r hr)
  | cons p ps ih =>
    cases qs with
    | nil =>
      rw [List.flatMap_cons, List.append_assoc] at h
      exact absurd h.symm (hends p _ r' hr')
    | cons q qs =>
      rw [List.flatMap_cons, List.flatMap_cons, List.append_assoc, List.append_assoc] at h
      obtain ⟨rfl, htail⟩ := source_append_inj hps.head hqs.head h
      obtain ⟨rfl, hrest⟩ := ih hps.tail hqs.tail htail
      exact ⟨rfl, hrest⟩

namespace IsLayout

variable {k : Chunk} {ks ls : List Chunk}

/-- A segment has one layout at most. -/
theorem eq_of_source_eq (hks : IsLayout ks) (hls : IsLayout ls)
    (h : Layout.source ks = Layout.source ls) : ks = ls := by
  induction ks generalizing ls with
  | nil => exact (hls.eq_nil_of_source h.symm).symm
  | cons k ks ih =>
    cases ls with
    | nil => exact hks.eq_nil_of_source h
    | cons l ls =>
      obtain ⟨c, cs, hk, hc⟩ := hks.exists_source_eq_cons
      obtain ⟨d, ds, hl, hd⟩ := hls.exists_source_eq_cons
      have hsame : k.isWord = l.isWord := by
        obtain ⟨rfl, -⟩ := List.cons.inj (hk.symm.trans (h.trans hl))
        simpa [hc] using hd
      have happ : k.source ++ Layout.source ks = l.source ++ Layout.source ls := by
        simpa [Layout.source] using h
      have hbehind : ∀ c tl, Layout.source ks = c :: tl → Text.isBlank c = k.isWord :=
        fun _ _ hs => hks.isBlank_behind hs
      have hbehind' : ∀ c tl, Layout.source ls = c :: tl → Text.isBlank c = l.isWord :=
        fun _ _ hs => hls.isBlank_behind hs
      have hhead : k = l ∧ Layout.source ks = Layout.source ls := by
        cases k with
        | gap cs =>
          cases l with
          | word qs => cases hsame
          | gap ds =>
            obtain ⟨rfl, hrest⟩ := blank_append_inj (hks.full (.gap cs) (by simp)).2
              (hls.full (.gap ds) (by simp)).2 hbehind hbehind' happ
            exact ⟨rfl, hrest⟩
        | word ps =>
          cases l with
          | gap ds => cases hsame
          | word qs =>
            obtain ⟨rfl, hrest⟩ :=
              Piece.flatMap_source_append_inj hks.inRow hls.inRow hbehind hbehind' happ
            exact ⟨rfl, hrest⟩
      obtain ⟨rfl, hrest⟩ := hhead
      rw [ih hks.tail hls.tail hrest]

theorem cons (h : IsLayout ks) (hk : k.IsFull) (hturn : ∀ l ∈ ks.head?, k.isWord ≠ l.isWord)
    (hrow : ∀ ps, k = .word ps → Piece.InRow ps (Layout.source ks)) : IsLayout (k :: ks) where
  full l hl := by
    rcases List.mem_cons.mp hl with rfl | hl
    · exact hk
    · exact h.full l hl
  alternating := h.alternating.cons hturn
  cutOff_last before ps p qs after hks hp := by
    cases before with
    | cons b before => exact h.cutOff_last before ps p qs after (List.cons.inj hks).2 hp
    | nil =>
      obtain ⟨rfl, rfl⟩ := List.cons.inj hks
      obtain ⟨hqs, hafter⟩ := hrow _ rfl ps p qs rfl hp
      exact ⟨hqs, h.eq_nil_of_source hafter⟩

theorem exists_blank_cons {c : Char} (hc : Text.isBlank c = true) (h : IsLayout ks) :
    ∃ ls, IsLayout ls ∧ Layout.source ls = c :: Layout.source ks := by
  have hrow : ∀ cs ps rest, Chunk.gap cs = .word ps → Piece.InRow ps rest := nofun
  have hown : (∀ l ∈ ks.head?, false ≠ l.isWord) →
      IsLayout (.gap [c] :: ks) := fun hturn =>
    h.cons (by simp [Chunk.IsFull, hc]) hturn fun ps => hrow [c] ps _
  cases ks with
  | nil => exact ⟨_, hown (by simp), rfl⟩
  | cons k ks =>
    cases k with
    | word ps => exact ⟨_, hown (by simp [Chunk.isWord]), rfl⟩
    | gap cs =>
      have hfull := h.full (.gap cs) (by simp)
      have hlonger : IsLayout (.gap (c :: cs) :: ks) :=
        h.tail.cons (by simpa [Chunk.IsFull, hc] using hfull.2) h.alternating.rel_head?
          fun ps => hrow (c :: cs) ps _
      exact ⟨_, hlonger, rfl⟩

theorem exists_piece_append (p : Piece) (h : IsLayout ks)
    (hp : p.isCutOff = true → Layout.source ks = []) :
    ∃ ls, IsLayout ls ∧ Layout.source ls = p.source ++ Layout.source ks := by
  have hown : (∀ l ∈ ks.head?, true ≠ l.isWord) → IsLayout (.word [p] :: ks) := fun hturn =>
    h.cons (by simp [Chunk.IsFull]) hturn fun ps hps => by
      obtain rfl := Chunk.word.inj hps
      exact (Piece.InRow.nil _).cons hp
  cases ks with
  | nil => exact ⟨_, hown (by simp), by simp [Layout.source, Chunk.source]⟩
  | cons k ks =>
    cases k with
    | gap cs => exact ⟨_, hown (by simp [Chunk.isWord]), by simp [Layout.source, Chunk.source]⟩
    | word ps =>
      have hlonger : IsLayout (.word (p :: ps) :: ks) :=
        h.tail.cons (by simp [Chunk.IsFull]) h.alternating.rel_head? fun qs hqs => by
          obtain rfl := Chunk.word.inj hqs
          exact h.inRow.cons (by simpa [Layout.source, Chunk.source] using hp)
      exact ⟨_, hlonger, by simp [Layout.source, Chunk.source]⟩

theorem exists_source_eq (cs : List Char) : ∃ ks, IsLayout ks ∧ Layout.source ks = cs := by
  -- The recursion is on the length, since a piece takes more than one character.
  induction hn : cs.length using Nat.strong_induction_on generalizing cs with
  | _ n ih =>
    subst hn
    cases cs with
    | nil => exact ⟨[], .nil, rfl⟩
    | cons c cs =>
      by_cases hc : Text.isBlank c = true
      · obtain ⟨ks, hks, rfl⟩ := ih cs.length (by simp) cs rfl
        exact hks.exists_blank_cons hc
      · obtain ⟨p, r, hsplit, hp⟩ := Piece.exists_source_append (by simpa using hc) cs
        obtain ⟨d, ds, hd, -⟩ := p.exists_source_eq_cons
        have hlt : r.length < (c :: cs).length := by
          have hlength := congrArg List.length hsplit
          have hpos : 0 < (d :: ds).length := Nat.succ_pos _
          rw [List.length_append, hd] at hlength
          omega
        obtain ⟨ks, hks, rfl⟩ := ih r.length hlt r rfl
        rw [hsplit]
        exact hks.exists_piece_append p hp

end IsLayout

namespace Lexer

theorem start_words_blanks {cs : List Char} (h : ∀ c ∈ cs, Text.isBlank c = true)
    (rest : List Char) : start.words (cs ++ rest) = start.words rest := by
  induction cs with
  | nil => rfl
  | cons c cs ih =>
    rw [List.cons_append, start_words_blank (h c (by simp))]
    exact ih fun d hd => h d (by simp [hd])

theorem words_behind {l : Lexer} (hl : l.mode = .bare) {rest : List Char}
    (h : ∀ c cs, rest = c :: cs → Text.isBlank c = true) :
    l.words rest = l.finish ++ start.words rest := by
  cases rest with
  | nil => simp [words, start, finish]
  | cons c cs =>
    have hc := h c cs rfl
    rw [words_blank (.inr hl) hc, start_words_blank hc]

theorem mode_foldl_take {l : Lexer} (hl : l.mode = .bare) (ps : List Piece) :
    (ps.foldl take l).mode = .bare := by
  induction ps generalizing l with
  | nil => exact hl
  | cons p ps ih => exact ih rfl

theorem foldl_take (l : Lexer) (ps : List Piece) :
    (ps.foldl take l).word = (ps.flatMap Piece.value).reverse ++ l.word ∧
      (ps.foldl take l).quoted = (l.quoted || ps.any fun p => !p.isPlain) := by
  induction ps generalizing l with
  | nil => simp
  | cons p ps ih =>
    obtain ⟨hword, hquoted⟩ := ih (l.take p)
    rw [List.foldl_cons, hword, hquoted]
    simp [take, Bool.or_assoc]

theorem words_pieces {l : Lexer} (hl : l.mode = .gap ∨ l.mode = .bare) {ps : List Piece}
    {rest : List Char} (h : Piece.InRow ps rest) :
    l.words (ps.flatMap Piece.source ++ rest) = (ps.foldl take l).words rest := by
  induction ps generalizing l with
  | nil => rfl
  | cons p ps ih =>
    rw [List.flatMap_cons, List.append_assoc, words_piece hl p h.head, ih (.inr rfl) h.tail]
    rfl

theorem words_chunk {k : Chunk} {ks : List Chunk} (h : IsLayout (k :: ks)) :
    start.words (Layout.source (k :: ks)) = k.words ++ start.words (Layout.source ks) := by
  have hsource : Layout.source (k :: ks) = k.source ++ Layout.source ks := rfl
  rw [hsource]
  cases k with
  | gap cs => exact start_words_blanks (h.full (.gap cs) (by simp)).2 _
  | word ps =>
    have hmode : (ps.foldl take start).mode = .bare := by
      cases ps with
      | nil => exact absurd rfl (h.full (.word []) (by simp))
      | cons p ps => exact mode_foldl_take rfl ps
    obtain ⟨hword, hquoted⟩ := foldl_take start ps
    have hfinish : (ps.foldl take start).finish = (Chunk.word ps).words := by
      simp only [finish, hmode, hword, hquoted]
      simp [start, Chunk.words]
    rw [Chunk.source, words_pieces (.inl rfl) h.inRow,
      words_behind hmode fun c cs => h.isBlank_behind, hfinish]

theorem words_layout {ks : List Chunk} (h : IsLayout ks) :
    start.words (Layout.source ks) = Layout.words ks := by
  induction ks with
  | nil => rfl
  | cons k ks ih =>
    rw [words_chunk h, ih h.tail]
    rfl

end Lexer

/-- Every segment has exactly one layout, and its words are those of the layout, in order. -/
theorem ofSegment_layout :
    (∀ segment : String, ∃! ks, IsLayout ks ∧ Layout.source ks = segment.toList) ∧
      (∀ (segment : String) (ks : List Chunk), IsLayout ks → Layout.source ks = segment.toList →
        Word.ofSegment segment = Layout.words ks) ∧
      Word.ofSegment "''" = [⟨"", true⟩] ∧ Word.ofSegment "\"\"" = [⟨"", true⟩] ∧
      ∀ segment : String, Text.blank segment = true → Word.ofSegment segment = [] := by
  refine ⟨fun segment => ?_, fun segment ks h hs => ?_, by decide, by decide, fun segment h => ?_⟩
  · obtain ⟨ks, h, hs⟩ := IsLayout.exists_source_eq segment.toList
    exact ⟨ks, ⟨h, hs⟩, fun ls hls => hls.1.eq_of_source_eq h (hls.2.trans hs.symm)⟩
  · rw [Word.ofSegment, ← hs]
    exact Lexer.words_layout h
  · have hblank : ∀ c ∈ segment.toList, Text.isBlank c = true := by
      simpa [Text.blank] using h
    have hwords := Lexer.start_words_blanks hblank []
    simpa [Word.ofSegment, Lexer.words, Lexer.finish, Lexer.start] using hwords

end PipelineShell
