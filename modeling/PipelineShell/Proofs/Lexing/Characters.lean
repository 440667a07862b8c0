import PipelineShell.Proofs.Lexing.Stages

/-! Reading a line makes up no characters: apart from backslashes, those of its commands are all
found in the line. -/

namespace PipelineShell

namespace Lexer

variable {l : Lexer} {w : Word}

theorem word_step_subset (l : Lexer) (c : Char) :
    (l.step c).2.word ⊆ c :: backslash :: l.word := by
  intro d
  unfold step enter
  cases l.mode <;> dsimp only <;> repeat' split
  all_goals
    simp only [start, List.mem_cons, List.not_mem_nil]
    grind

theorem subset_of_mem_finish (h : w ∈ l.finish) : w.text.toList ⊆ backslash :: l.word := by
  intro d hd
  unfold finish at h
  split at h <;> simp only [List.mem_singleton, List.not_mem_nil] at h
  all_goals
    subst h
    simp only [String.toList_ofList, List.mem_reverse, List.mem_cons] at hd ⊢
    grind

theorem mem_finish_of_mem_step {c : Char} (h : w ∈ (l.step c).1) : w ∈ l.finish := by
  unfold step at h
  cases hm : l.mode <;> simp only [hm] at h
  all_goals
    repeat' split at h
    all_goals first | exact h | exact absurd h List.not_mem_nil

theorem subset_of_mem_words {cs : List Char} (h : w ∈ l.words cs) :
    w.text.toList ⊆ backslash :: (l.word ++ cs) := by
  induction cs generalizing l with
  | nil => simpa [words] using subset_of_mem_finish h
  | cons c cs ih =>
    intro d hd
    rcases List.mem_append.mp h with h | h
    · have hh := subset_of_mem_finish (mem_finish_of_mem_step h) hd
      simp only [List.mem_cons, List.mem_append] at hh ⊢
      grind
    · have hh := ih h hd
      have hw := @word_step_subset l c d
      simp only [List.mem_cons, List.mem_append] at hh hw ⊢
      grind

end Lexer

theorem subset_of_mem_segmentsFrom {m : ScanMode} {done cs s : List Char}
    (h : s ∈ segmentsFrom m done cs) : s ⊆ done ++ cs := by
  induction cs generalizing m done with
  | nil =>
    rw [segmentsFrom, List.mem_singleton] at h
    simp [h]
  | cons c cs ih =>
    intro d hd
    rw [segmentsFrom] at h
    split at h
    · rcases List.mem_cons.mp h with rfl | h
      · simp [List.mem_reverse.mp hd]
      · have hh := ih h hd
        simp only [List.nil_append, List.mem_append, List.mem_cons] at hh ⊢
        grind
    · have hh := ih h hd
      simp only [List.cons_append, List.mem_append, List.mem_cons] at hh ⊢
      grind

namespace Redirection

theorem forall_collect {P : String → Prop} {ws : List Word} {r : Redirection}
    (hws : ∀ w ∈ ws, P w.text) (hr : ∀ s t, (r.get s).target = some t → P t) :
    (∀ t ∈ (collect ws r).1, P t) ∧
      ∀ s t, ((collect ws r).2.get s).target = some t → P t := by
  induction ws, r using collect.induct with
  | case1 r => exact ⟨fun _ h => absurd h List.not_mem_nil, hr⟩
  | case2 r w ws hw ih =>
    obtain ⟨hw', hws'⟩ := List.forall_mem_cons.mp hws
    simp only [collect, hw]
    exact ⟨List.forall_mem_cons.mpr ⟨hw', (ih hws' hr).1⟩, (ih hws' hr).2⟩
  | case3 r w s append hw =>
    simp only [collect, hw]
    exact ⟨fun _ h => absurd h List.not_mem_nil, hr⟩
  | case4 r w s append hw t rest ih =>
    obtain ⟨ht, hrest⟩ := List.forall_mem_cons.mp (List.forall_mem_cons.mp hws).2
    simp only [collect, hw]
    refine ih hrest fun s' t' h => ?_
    cases s <;> cases s' <;> simp only [set, get, Option.some.injEq] at h
    · exact h ▸ ht
    · exact hr .stderr t' h
    · exact hr .stdout t' h
    · exact h ▸ ht

end Redirection

/-- All texts of a command are such: its name, its arguments and its targets. -/
structure Command.Forall (P : String → Prop) (c : Command) : Prop where
  words : ∀ t ∈ c.name :: c.args, P t
  targets : ∀ s t, (c.redirection.get s).target = some t → P t

theorem Command.forall_ofTokens {P : String → Prop} (hempty : P "") {ws : List Word}
    (hws : ∀ w ∈ ws, P w.text) : (Command.ofTokens ws).Forall P := by
  have hnone : ∀ s t, (Redirection.none.get s).target = some t → P t := by
    intro s t h
    cases s <;> cases h
  obtain ⟨hplain, htargets⟩ := Redirection.forall_collect hws hnone
  unfold ofTokens
  cases hc : Redirection.collect ws Redirection.none with
  | mk plain r =>
    rw [hc] at hplain htargets
    cases plain with
    | nil => exact ⟨by simpa [ofWords] using hempty, htargets⟩
    | cons name args => exact ⟨hplain, htargets⟩

theorem Pipeline.forall_parse (line : String) : ∀ c ∈ (parse line).stages,
    c.Forall fun t => t.toList ⊆ backslash :: line.toList := by
  intro c hc
  rw [stages_parse] at hc
  obtain ⟨cs, hcs, rfl⟩ := List.mem_map.mp hc
  refine Command.forall_ofTokens (List.nil_subset _) fun w hw d hd => ?_
  have hline := subset_of_mem_segmentsFrom hcs
  rcases List.mem_cons.mp (Lexer.subset_of_mem_words hw hd) with rfl | hd
  · exact List.mem_cons_self
  · exact List.mem_cons_of_mem _ (hline hd)

end PipelineShell
