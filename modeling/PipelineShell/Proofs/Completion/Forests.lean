import Mathlib.Data.List.Basic
import Mathlib.Data.String.Basic
import PipelineShell.Trie.Forest

/-! The words of a forest. The order of siblings makes a walk over the forest meet its words in
ascending order, each once. -/

namespace PipelineShell.Forest

def words : Forest → List (List Char)
  | .empty => []
  | .node c word down next =>
    (if word then [[c]] else []) ++ down.words.map (c :: ·) ++ next.words

/-- The first siblings, and so all of them, come after the character. -/
def Above (c : Char) : Forest → Prop
  | .empty => True
  | .node d _ _ _ => c < d

def Ascending : Forest → Prop
  | .empty => True
  | .node c _ down next => down.Ascending ∧ next.Ascending ∧ next.Above c

variable {f : Forest} {c : Char} {cs w : List Char}

theorem ne_nil_of_mem_words (h : w ∈ f.words) : w ≠ [] := by
  induction f with
  | empty => simp [words] at h
  | node c word down next _ ihn =>
    simp only [words, List.mem_append, List.mem_map] at h
    rcases h with (h | ⟨v, _, rfl⟩) | h
    · cases word <;> simp_all
    · simp
    · exact ihn h

theorem exists_cons_of_above (hf : f.Ascending) (h : f.Above c) (hw : w ∈ f.words) :
    ∃ d v, w = d :: v ∧ c < d := by
  induction f with
  | empty => simp [words] at hw
  | node d word down next _ ihn =>
    have hcd : c < d := h
    simp only [words, List.mem_append, List.mem_map] at hw
    rcases hw with (hw | ⟨v, _, rfl⟩) | hw
    · cases word with
      | false => simp at hw
      | true => exact ⟨d, [], by simpa using hw, hcd⟩
    · exact ⟨d, v, rfl, hcd⟩
    · refine ihn hf.2.1 ?_ hw
      cases next with
      | empty => trivial
      | node d' _ _ _ => exact lt_trans hcd hf.2.2

theorem pairwise_words (hf : f.Ascending) : f.words.Pairwise (· < ·) := by
  induction f with
  | empty => exact List.Pairwise.nil
  | node c word down next ihd ihn =>
    obtain ⟨hdown, hnext, habove⟩ := hf
    have hbelow : (down.words.map (c :: ·)).Pairwise (· < ·) := by
      rw [List.pairwise_map]
      exact (ihd hdown).imp fun h => List.Lex.cons h
    have hhere : ((if word then [[c]] else []) ++ down.words.map (c :: ·)).Pairwise (· < ·) := by
      refine List.pairwise_append.mpr ⟨by cases word <;> simp, hbelow, fun a ha b hb => ?_⟩
      obtain ⟨v, hv, rfl⟩ := List.mem_map.mp hb
      have ha' : a = [c] := by cases word <;> simp_all
      obtain ⟨d, u, rfl⟩ := List.exists_cons_of_ne_nil (ne_nil_of_mem_words hv)
      exact ha' ▸ List.Lex.cons List.Lex.nil
    refine List.pairwise_append.mpr ⟨hhere, ihn hnext, fun a ha b hb => ?_⟩
    obtain ⟨d, v, rfl, hcd⟩ := exists_cons_of_above hnext habove hb
    have ha' : ∃ u, a = c :: u := by
      rcases List.mem_append.mp ha with ha | ha
      · exact ⟨[], by cases word <;> simp_all⟩
      · obtain ⟨u, _, rfl⟩ := List.mem_map.mp ha
        exact ⟨u, rfl⟩
    obtain ⟨u, rfl⟩ := ha'
    exact List.Lex.rel hcd

theorem words_chain (h : cs ≠ []) : (chain cs).words = [cs] := by
  induction cs with
  | nil => exact absurd rfl h
  | cons c cs ih =>
    cases cs with
    | nil => rfl
    | cons d cs =>
      have hrest := ih (by simp)
      rw [chain, words, hrest]
      rfl

theorem ascending_chain (cs : List Char) : (chain cs).Ascending := by
  induction cs with
  | nil => trivial
  | cons c cs ih => exact ⟨ih, trivial, trivial⟩

theorem above_insert (h : f.Above c) {d : Char} (hd : c < d) (cs : List Char) :
    (f.insert (d :: cs)).Above c := by
  cases f with
  | empty => exact hd
  | node e word down next =>
    have he : c < e := h
    unfold insert
    split
    · exact hd
    · split <;> exact he

theorem ascending_insert (hf : f.Ascending) (cs : List Char) : (f.insert cs).Ascending := by
  induction f generalizing cs with
  | empty =>
    cases cs with
    | nil => trivial
    | cons c cs => exact ascending_chain (c :: cs)
  | node d word down next ihd ihn =>
    obtain ⟨hdown, hnext, habove⟩ := hf
    cases cs with
    | nil => exact ⟨hdown, hnext, habove⟩
    | cons c cs =>
      unfold insert
      split
      · next hlt => exact ⟨ascending_chain cs, ⟨hdown, hnext, habove⟩, hlt⟩
      · next hlt =>
        split
        · exact ⟨ihd hdown cs, hnext, habove⟩
        · next hne =>
          have hdc : d < c := lt_of_le_of_ne (not_lt.mp hlt) (Ne.symm hne)
          exact ⟨hdown, ihn hnext (c :: cs), above_insert habove hdc cs⟩

theorem mem_words_insert (h : cs ≠ []) : w ∈ (f.insert cs).words ↔ w = cs ∨ w ∈ f.words := by
  induction f generalizing cs w with
  | empty =>
    obtain ⟨c, cs, rfl⟩ := List.exists_cons_of_ne_nil h
    simp only [insert, words_chain h, words, List.mem_singleton, List.not_mem_nil, or_false]
  | node d word down next ihd ihn =>
    obtain ⟨c, cs, rfl⟩ := List.exists_cons_of_ne_nil h
    unfold insert
    split
    · have hchain : (node c cs.isEmpty (chain cs) (node d word down next)).words =
          (chain (c :: cs)).words ++ (node d word down next).words := by
        simp [chain, words]
      rw [hchain, words_chain h]
      simp
    · split
      · next heq =>
        subst heq
        cases cs with
        | nil =>
          have hsame : down.insert [] = down := by cases down <;> rfl
          cases word <;> simp [words, hsame]
        | cons e es =>
          have hdown : ∀ v, v ∈ (down.insert (e :: es)).words ↔ v = e :: es ∨ v ∈ down.words :=
            fun v => ihd (by simp)
          simp only [words, List.mem_append, List.mem_map, hdown, List.isEmpty_cons, Bool.or_false]
          constructor
          · rintro ((hw | ⟨v, rfl | hv, rfl⟩) | hw)
            · exact .inr (.inl (.inl hw))
            · exact .inl rfl
            · exact .inr (.inl (.inr ⟨v, hv, rfl⟩))
            · exact .inr (.inr hw)
          · rintro (rfl | (hw | ⟨v, hv, rfl⟩) | hw)
            · exact .inl (.inr ⟨_, .inl rfl, rfl⟩)
            · exact .inl (.inl hw)
            · exact .inl (.inr ⟨v, .inr hv, rfl⟩)
            · exact .inr hw
      · simp only [words, List.mem_append, ihn h]
        tauto

theorem filter_words (hf : f.Ascending) (cs : List Char) : f.words.filter cs.isPrefixOf =
    match f.find? cs with
    | none => []
    | some (isWord, down) => (if isWord then [cs] else []) ++ down.words.map (cs ++ ·) := by
  induction f generalizing cs with
  | empty => cases cs <;> simp [words, find?]
  | node d word down next ihd ihn =>
    obtain ⟨hdown, hnext, habove⟩ := hf
    cases cs with
    | nil => simp [find?, List.isPrefixOf]
    | cons c cs =>
      have hbelow : (down.words.map (d :: ·)).filter (c :: cs).isPrefixOf =
          if c = d then (down.words.filter cs.isPrefixOf).map (d :: ·) else [] := by
        rw [List.filter_map]
        split
        · next heq =>
          subst heq
          congr 2
          funext v
          simp [List.isPrefixOf]
        · next hne => simp [Function.comp_def, List.isPrefixOf, hne]
      have hhere : (if word then [[d]] else []).filter (c :: cs).isPrefixOf =
          if c = d ∧ cs = [] ∧ word = true then [[d]] else [] := by
        cases word <;> cases cs <;> by_cases hcd : c = d <;> simp [List.isPrefixOf, hcd]
      simp only [words, List.filter_append, hbelow, hhere, find?]
      by_cases hcd : c = d
      · subst hcd
        have hlater : next.words.filter (c :: cs).isPrefixOf = [] := by
          refine List.filter_eq_nil_iff.mpr fun w hw => ?_
          obtain ⟨e, v, rfl, he⟩ := exists_cons_of_above hnext habove hw
          simp [List.isPrefixOf, ne_of_lt he]
        rw [hlater]
        cases cs with
        | nil => cases word <;> simp [List.isPrefixOf]
        | cons e es =>
          have hrest := ihd hdown (e :: es)
          cases hfind : down.find? (e :: es) with
          | none => simp [hfind, hrest]
          | some found =>
            obtain ⟨isWord, below⟩ := found
            cases isWord <;> simp [hfind, hrest, Function.comp_def]
      · simp [hcd, ihn hnext]

theorem isWord_iff (hf : f.Ascending) (cs : List Char) :
    f.isWord cs = true ↔ cs ∈ f.words := by
  have hmem : cs ∈ f.words ↔ cs ∈ f.words.filter cs.isPrefixOf := by simp
  have hnonempty : ∀ down : Forest, cs ∉ down.words.map (cs ++ ·) := by
    intro down h
    obtain ⟨v, hv, heq⟩ := List.mem_map.mp h
    exact ne_nil_of_mem_words hv (by simpa using heq)
  rw [hmem, filter_words hf, isWord]
  cases hfind : f.find? cs with
  | none => simp
  | some found =>
    obtain ⟨isWord, down⟩ := found
    have hno := hnonempty down
    cases isWord <;> simp_all

/-- With a budget, a walk gathers the first words, as many as the budget allows. -/
theorem gather_eq (budget : Nat) (before : List Char) (f : Forest) :
    f.gather budget before = (f.words.take budget).map (before.reverse ++ ·) := by
  induction f generalizing budget before with
  | empty => simp [gather, words]
  | node c word down next ihd ihn =>
    by_cases hb : budget = 0
    · simp [gather, hb]
    · simp only [gather, hb, if_false, ihd, ihn, words, List.take_append, List.map_append,
        List.length_map, List.length_take]
      cases word with
      | false =>
        have hrest : budget - min budget down.words.length = budget - down.words.length := by omega
        simp [hrest, Function.comp_def]
      | true =>
        obtain ⟨n, rfl⟩ := Nat.exists_eq_succ_of_ne_zero hb
        have hrest : n - min n down.words.length = n - down.words.length := by omega
        simp [hrest, Function.comp_def]

end PipelineShell.Forest
