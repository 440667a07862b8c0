import Mathlib.Logic.Function.Iterate
import PipelineShell.Proofs.Completion.Sharing

/-! Completing what was completed. A partial answer is one text made of several candidates; asked
for that text, the completion lists just those candidates, and from then on nothing changes. -/

namespace PipelineShell

theorem take_filter_of_forall_take {α : Type} {p : α → Bool} {l : List α} {k : Nat}
    (h : ∀ a ∈ l.take k, p a = true) : (l.filter p).take k = l.take k := by
  induction l generalizing k with
  | nil => rfl
  | cons a l ih =>
    cases k with
    | zero => rfl
    | succ k =>
      have ha := h a List.mem_cons_self
      rw [List.filter_cons_of_pos ha, List.take_succ_cons, List.take_succ_cons]
      exact congrArg (a :: ·) (ih fun b hb => h b (List.mem_cons_of_mem a hb))

theorem Text.blank_of_begins {s t : String} (h : begins s t = true) (hs : blank s = false) :
    blank t = false := by
  cases ht : blank t with
  | false => rfl
  | true =>
    have hblank : blank s = true := by
      rw [blank, List.all_eq_true] at ht ⊢
      exact fun c hc => ht c ((begins_iff.mp h).subset hc)
    rw [hblank] at hs
    cases hs

namespace Trie

theorem beginning_of_begins (words : Finset String) {start longer : String}
    (h : Text.begins start longer = true) :
    beginning words longer = (beginning words start).filter (Text.begins longer) := by
  have hsorted := (pairwise_beginning words start).filter (Text.begins longer)
  have hset : ((beginning words start).filter (Text.begins longer)).toFinset =
      words.filter fun w => Text.begins longer w := by
    ext w
    rw [List.mem_toFinset, List.mem_filter, mem_beginning, Finset.mem_filter]
    exact ⟨fun hw => ⟨hw.1.1, hw.2⟩, fun hw => ⟨⟨hw.1, Text.begins_trans h hw.2⟩, hw.2⟩⟩
  rw [beginning, ← hset]
  exact (List.toFinset_sort _ (hsorted.imp ne_of_lt)).mpr (hsorted.imp le_of_lt)

theorem Holds.find_longer {t : Trie} {words : Finset String} (h : t.Holds words)
    {text longer : String} {limit : Int} (hne : t.find text limit ≠ [])
    (hstart : Text.begins (Text.fold text) longer = true) (hfold : Text.fold longer = longer)
    (hall : ∀ w ∈ t.find text limit, Text.begins longer w = true) :
    t.find longer limit = t.find text limit := by
  obtain ⟨hb, hl⟩ := not_or.mp fun hrefused => hne (find_of_refused hrefused)
  have hblank : Text.blank text = false := Bool.not_eq_true _ ▸ hb
  have hpos : 0 < limit := Int.not_le.mp hl
  have hlonger : Text.blank longer = false :=
    Text.blank_of_begins hstart (Text.blank_fold text ▸ hblank)
  rw [h.find_eq hblank hpos] at hall ⊢
  rw [h.find_eq hlonger hpos, hfold, beginning_of_begins words hstart,
    take_filter_of_forall_take hall]

end Trie

namespace Completion

section

variable {changes : List Trie.Change} {limit : Int} {text shared : String}

theorem candidates_of_partial
    (h : suggest ⟨Trie.after changes, limit⟩ text = ⟨[shared], false⟩) :
    candidates ⟨Trie.after changes, limit⟩ shared =
      candidates ⟨Trie.after changes, limit⟩ text := by
  have hc := candidates_after changes limit text
  have htwo := two_le_of_partial h
  obtain ⟨hshared, _⟩ := longestShared_of_partial hc h
  have hne : candidates ⟨Trie.after changes, limit⟩ text ≠ [] :=
    List.ne_nil_of_length_pos (by omega)
  obtain ⟨w, hw⟩ := List.exists_mem_of_ne_nil _ hne
  have hfold : Text.fold shared = shared :=
    Text.fold_of_begins (hshared.begins w hw) (hc.folded w hw)
  exact (Trie.holds_after changes).find_longer hne (hc.begins_shared hshared) hfold hshared.begins

theorem suggest_of_partial (h : suggest ⟨Trie.after changes, limit⟩ text = ⟨[shared], false⟩) :
    suggest ⟨Trie.after changes, limit⟩ shared =
      ⟨candidates ⟨Trie.after changes, limit⟩ text, false⟩ := by
  have hsame := candidates_of_partial h
  have htwo := two_le_of_partial h
  obtain ⟨hshared, _⟩ := longestShared_of_partial (candidates_after changes limit text) h
  rw [suggest_of_longestShared (candidates_after changes limit shared) (hsame ▸ htwo)
    (hsame ▸ hshared), if_neg (lt_irrefl _), hsame]

end

/-- What comes of asking on: a partial answer is asked for in its turn, and any other stays. -/
def again (c : Completion) (s : Suggestion) : Suggestion :=
  match s with
  | ⟨[t], false⟩ => c.suggest t
  | s => s

theorem again_list (c : Completion) {l : List String} (h : 2 ≤ l.length) :
    c.again ⟨l, false⟩ = ⟨l, false⟩ := by
  obtain ⟨v, w, l, rfl⟩ := exists_cons_cons h
  rfl

theorem again_iterate (c : Completion) {s : Suggestion} {l : List String} (h : 2 ≤ l.length)
    (hs : c.again s = ⟨l, false⟩) (n : Nat) : c.again^[n + 1] s = ⟨l, false⟩ := by
  rw [Function.iterate_succ_apply, hs]
  exact Function.iterate_fixed (c.again_list h) n

/-- The second answer shows the choice that the first, partial one stands for. -/
structure Lists (c : Completion) (text shared : String) : Prop where
  answer : c.suggest shared = ⟨c.candidates text, false⟩
  /-- They are listed as they were found first, with the same ones cut off at the limit. -/
  candidates : c.candidates shared = c.candidates text
  choice : 2 ≤ (c.candidates text).length
  ascending : (c.candidates text).Pairwise fun v w => v.toList < w.toList
  begins : ∀ w ∈ c.candidates text, Text.begins shared w = true
  plain : (c.suggest shared).isPartial = false ∧ (c.suggest shared).complete = false ∧
    (c.suggest shared).candidates ≠ []
  /-- However often it is asked on, the answer is that list. -/
  settled : ∀ n, c.again^[n + 1] (c.suggest text) = ⟨c.candidates text, false⟩

/-- A partial answer that is asked for lists what it was made of, whatever was inserted and
wherever the list was cut off. -/
theorem partial_then_lists {changes : List Trie.Change} {limit : Int} {text shared : String}
    (h : suggest ⟨Trie.after changes, limit⟩ text = ⟨[shared], false⟩) :
    Lists ⟨Trie.after changes, limit⟩ text shared := by
  have hc := candidates_after changes limit text
  have htwo := two_le_of_partial h
  have hanswer := suggest_of_partial h
  obtain ⟨hshared, _⟩ := longestShared_of_partial hc h
  refine ⟨hanswer, candidates_of_partial h, htwo, hc.ascending.imp String.lt_iff_toList_lt.mp,
    hshared.begins, ?_, again_iterate _ htwo ?_⟩
  · obtain ⟨v, w, l, hl⟩ := exists_cons_cons htwo
    rw [hanswer, hl]
    exact ⟨rfl, rfl, List.cons_ne_nil v _⟩
  · rw [h]
    exact hanswer

theorem partial_then_lists_cut :
    suggest ⟨Trie.after [.insert "pair", .insert "Party", .insert "PART"], 2⟩ "P" =
      ⟨["pa"], false⟩ ∧
    suggest ⟨Trie.after [.insert "pair", .insert "Party", .insert "PART"], 2⟩ "pa" =
      ⟨["pair", "part"], false⟩ ∧
    Lists ⟨Trie.after [.insert "pair", .insert "Party", .insert "PART"], 2⟩ "P" "pa" :=
  have h : suggest ⟨Trie.after [.insert "pair", .insert "Party", .insert "PART"], 2⟩ "P" =
      ⟨["pa"], false⟩ := by decide +kernel
  ⟨h, by decide +kernel, partial_then_lists h⟩

end Completion

end PipelineShell
