import PipelineShell.Proofs.Lexing.Cutting
import PipelineShell.Proofs.Lexing.Layout
import PipelineShell.Proofs.Lexing.OnePass

/-! Text put between two texts, the first of which is closed. White space between them keeps their
words apart, and a quoted text in it is one word more, whatever the two texts are. -/

namespace PipelineShell

namespace Lexer

theorem scan_run (l : Lexer) (cs : List Char) : (l.run cs).mode.scan = l.mode.scan.run cs := by
  induction cs generalizing l with
  | nil => rfl
  | cons c cs ih => rw [run_cons, ih, scan_step, ScanMode.run_cons]

/-- Behind a closed text, white space ends the word that was begun, and the rest is read from the
start. -/
theorem start_words_append {cs ws : List Char} (h : ScanMode.plain.run cs = .plain) (hne : ws ≠ [])
    (hws : ∀ c ∈ ws, Text.isBlank c = true) (ds : List Char) :
    start.words (cs ++ (ws ++ ds)) = start.words cs ++ start.words ds := by
  obtain ⟨c, ws, rfl⟩ := List.exists_cons_of_ne_nil hne
  obtain ⟨hc, hws⟩ := List.forall_mem_cons.mp hws
  have hmode : (start.run cs).mode = .gap ∨ (start.run cs).mode = .bare :=
    LexMode.scan_eq_plain.mp ((scan_run start cs).trans h)
  have hrest : (start.run cs).words (c :: (ws ++ ds)) =
      (start.run cs).finish ++ start.words ds := by
    rw [words_blank hmode hc, start_words_blanks hws]
  calc start.words (cs ++ (c :: ws ++ ds))
      = start.ended cs ++ (start.run cs).words (c :: (ws ++ ds)) := by
        rw [words_eq, words_eq, ended_append, run_append, List.append_assoc]
        rfl
    _ = start.words cs ++ start.words ds := by
        rw [hrest, words_eq start cs, List.append_assoc]

end Lexer

namespace Word

theorem ofSegment_append {a w : String} (h : Closed a) (hne : w ≠ "")
    (hw : Text.blank w = true) (b : String) :
    ofSegment (a ++ w ++ b) = ofSegment a ++ ofSegment b := by
  have hblank : ∀ c ∈ w.toList, Text.isBlank c = true := List.all_eq_true.mp hw
  have hnil : w.toList ≠ [] := by simpa using hne
  have hh := Lexer.start_words_append h hnil hblank b.toList
  simpa [ofSegment] using hh

theorem ofSegment_insert {a : String} (h : Closed a) (s b : String) :
    ofSegment (a ++ " " ++ quote s ++ " " ++ b) = ofSegment a ++ ofText s :: ofSegment b := by
  have hquote : ofSegment (quote s ++ " " ++ b) = ofText s :: ofSegment b := by
    have hh := (readsAs_quote s).blank (c := ' ') (by decide) b.toList
    simpa [ofSegment, ofText] using hh
  have hassoc : a ++ " " ++ quote s ++ " " ++ b = a ++ " " ++ (quote s ++ " " ++ b) := by
    simp only [String.append_assoc]
  rw [hassoc, ofSegment_append h (by decide) (by decide), hquote]

end Word

theorem segmentsFrom_eq_modifyHead (m : ScanMode) (done cs : List Char) :
    segmentsFrom m done cs = (segmentsFrom m [] cs).modifyHead (done.reverse ++ ·) := by
  induction cs generalizing m done with
  | nil => simp [segmentsFrom]
  | cons c cs ih =>
    rw [segmentsFrom, segmentsFrom]
    by_cases hc : m.cuts c = true
    · simp [hc]
    · rw [if_neg hc, if_neg hc, ih _ (c :: done), ih _ [c], List.modifyHead_modifyHead]
      congr 1
      funext s
      simp

/-- A stretch between two texts lies in one segment, that of the end of the first and the beginning
of the second. -/
theorem segmentsFrom_insert {m : ScanMode} {cs ws ds first last : List Char}
    {done : List Char} {before after : List (List Char)} (hrun : m.run cs = .plain)
    (hws : ScanMode.Whole ws) (hcs : segmentsFrom m done cs = before ++ [first])
    (hds : segmentsFrom .plain [] ds = last :: after) :
    segmentsFrom m done (cs ++ (ws ++ ds)) = before ++ (first ++ ws ++ last) :: after := by
  induction cs generalizing m done before with
  | nil =>
    obtain rfl : m = .plain := hrun
    rw [segmentsFrom] at hcs
    obtain ⟨rfl, hfirst⟩ : before = [] ∧ [done.reverse] = [first] := by
      cases before with
      | nil => exact ⟨rfl, hcs⟩
      | cons b before => simp at hcs
    obtain rfl := List.singleton_inj.mp hfirst
    rw [List.nil_append, segmentsFrom_whole hws, segmentsFrom_eq_modifyHead, hds]
    simp
  | cons c cs ih =>
    rw [segmentsFrom] at hcs
    rw [List.cons_append, segmentsFrom]
    by_cases hc : m.cuts c = true
    · have hplain : m = .plain ∧ c = '|' := by simpa [ScanMode.cuts] using hc
      obtain ⟨rfl, rfl⟩ := hplain
      rw [if_pos hc] at hcs ⊢
      cases before with
      | nil => exact absurd (List.cons.inj hcs).2 (segmentsFrom_ne_nil _ _ _)
      | cons b before =>
        obtain ⟨hb, hrest⟩ := List.cons.inj hcs
        rw [ih (m := .plain) hrun hrest, hb, List.cons_append]
    · rw [if_neg hc] at hcs ⊢
      exact ih hrun hcs

theorem segments_insert {a w b first last : String} {before after : List String} (h : Closed a)
    (hw : ScanMode.Whole w.toList) (ha : segments a = before ++ [first])
    (hb : segments b = last :: after) :
    segments (a ++ w ++ b) = before ++ (first ++ w ++ last) :: after := by
  obtain ⟨cs, cs', hcs, rfl, hfirst⟩ := List.map_eq_append_iff.mp ha
  obtain ⟨first, rfl, rfl⟩ := List.map_eq_singleton_iff.mp hfirst
  obtain ⟨last, after, hds, rfl, rfl⟩ := List.map_eq_cons_iff.mp hb
  have hh := segmentsFrom_insert h hw hcs hds
  have hlist : (a ++ w ++ b).toList = a.toList ++ (w.toList ++ b.toList) := by simp
  rw [segments, hlist, hh]
  simp [String.append_assoc]

/-- The segment in which a closed text ends is closed too. -/
theorem Closed.of_segments {a first : String} {before : List String} (h : Closed a)
    (ha : segments a = before ++ [first]) : Closed first := by
  have hbar := segments_append_bar h ""
  obtain ⟨-, -, hclosed⟩ := segments_sound (a ++ "|" ++ "")
  rw [hbar, ha] at hclosed
  exact hclosed first (by simp [segments, segmentsFrom])

theorem whole_space : ScanMode.Whole " ".toList :=
  ⟨rfl, rfl⟩

theorem whole_quote (s : String) : ScanMode.Whole (" " ++ quote s ++ " ").toList := by
  have hh := (whole_space.append (writes_quote s).whole).append whole_space
  simpa using hh

/-- Behind a closed text, a quoted text between spaces is one word more, and none that is read as an
operator. All words before it and behind it stay, with their quoted flags, in the stages where they
are without it. The same holds of white space alone, which adds no word. -/
theorem Word.insert_quote {a : String} (h : Closed a) (s b : String) :
    ofSegment (a ++ " " ++ quote s ++ " " ++ b) = ofSegment a ++ ofText s :: ofSegment b ∧
      (ofText s).text = s ∧ (ofText s).operator? = none ∧
      (segments (a ++ " " ++ quote s ++ " " ++ b)).length = (segments (a ++ " " ++ b)).length ∧
      (∃ before first last after, (segments a).map ofSegment = before ++ [first] ∧
        (segments b).map ofSegment = last :: after ∧
        (segments (a ++ " " ++ b)).map ofSegment = before ++ (first ++ last) :: after ∧
        (segments (a ++ " " ++ quote s ++ " " ++ b)).map ofSegment =
          before ++ (first ++ ofText s :: last) :: after) ∧
      ∀ w, w ≠ "" → Text.blank w = true →
        ofSegment (a ++ w ++ b) = ofSegment a ++ ofSegment b := by
  obtain ⟨before, first, ha⟩ : ∃ before first, segments a = before ++ [first] := by
    have hne : segments a ≠ [] := by simpa [segments] using segmentsFrom_ne_nil _ _ _
    exact ⟨_, _, (List.dropLast_concat_getLast hne).symm⟩
  obtain ⟨last, after, hb⟩ : ∃ last after, segments b = last :: after :=
    List.exists_cons_of_ne_nil (by simpa [segments] using segmentsFrom_ne_nil _ _ _)
  have hfirst := h.of_segments ha
  have hspace := segments_insert h whole_space ha hb
  have hquote := segments_insert h (whole_quote s) ha hb
  have hassoc : ∀ x y : String, x ++ (" " ++ quote s ++ " ") ++ y =
      x ++ " " ++ quote s ++ " " ++ y := fun x y => by simp only [String.append_assoc]
  rw [hassoc, hassoc] at hquote
  refine ⟨ofSegment_insert h s b, rfl, operator?_ofText s, by simp [hspace, hquote],
    ⟨before.map ofSegment, ofSegment first, ofSegment last, after.map ofSegment, by simp [ha],
      by simp [hb], ?_, ?_⟩, fun w hne hw => ofSegment_append h hne hw b⟩
  · rw [hspace, List.map_append, List.map_cons, ofSegment_append hfirst (by decide) (by decide)]
  · rw [hquote, List.map_append, List.map_cons, ofSegment_insert hfirst]

theorem Word.insert_quote_operator : Closed "echo 'a|b' >" ∧
    ofSegment ("echo 'a|b' >" ++ " " ++ quote ">> it's" ++ " " ++ "x | wc") =
      [⟨"echo", false⟩, ⟨"a|b", true⟩, ⟨">", false⟩, ⟨">> it's", true⟩, ⟨"x", false⟩, ⟨"|", false⟩,
        ⟨"wc", false⟩] := by
  have hclosed : Closed "echo 'a|b' >" := by decide
  exact ⟨hclosed, (insert_quote hclosed ">> it's" "x | wc").1.trans (by decide)⟩

end PipelineShell
