import Mathlib.Data.Finset.Sort
import PipelineShell.Proofs.Completion.Folding
import PipelineShell.Proofs.Completion.Forests
import PipelineShell.Trie

/-! A trie is the set of the folded words that were inserted since it was cleared last, and it finds
the words of that set in ascending order. -/

namespace PipelineShell

def Text.begins (start text : String) : Bool :=
  start.toList.isPrefixOf text.toList

namespace Trie

inductive Change
  | insert (word : String)
  | clear

def change (t : Trie) : Change → Trie
  | .insert word => t.insert word
  | .clear => .empty

def after (changes : List Change) : Trie :=
  changes.foldl change .empty

/-- The words inserted since the last time that all words were cleared, the latest first. -/
def inserted (changes : List Change) : List String :=
  changes.foldl (fun words c => match c with
    | .insert word => word :: words
    | .clear => []) []

/-- The set that a trie stands for: the words that are not blank, folded. -/
def kept (changes : List Change) : Finset String :=
  (((inserted changes).filter fun w => !Text.blank w).map Text.fold).toFinset

/-- The words of a set that begin with a text, in ascending order. -/
def beginning (words : Finset String) (text : String) : List String :=
  (words.filter fun w => Text.begins text w).sort (· ≤ ·)

/-- The siblings are in order, the words are those of the set, and each has been counted once. -/
structure Holds (t : Trie) (words : Finset String) : Prop where
  ascending : t.forest.Ascending
  mem_iff : ∀ w, w.toList ∈ t.forest.words ↔ w ∈ words
  size : t.size = words.card

theorem holds_empty : Trie.empty.Holds ∅ :=
  ⟨trivial, fun w => by simp [empty, Forest.words], rfl⟩

namespace Holds

variable {t : Trie} {words : Finset String} (h : t.Holds words)

include h

theorem isWord_iff {w : String} : t.forest.isWord w.toList = true ↔ w ∈ words := by
  rw [Forest.isWord_iff h.ascending, h.mem_iff]

theorem insert (word : String) : (t.insert word).Holds
    (if Text.blank word then words else Insert.insert (Text.fold word) words) := by
  unfold Trie.insert
  by_cases hb : Text.blank word = true
  · rw [if_pos hb, if_pos hb]
    exact h
  · rw [if_neg hb, if_neg hb]
    have hne : (Text.fold word).toList ≠ [] :=
      Text.toList_fold_ne_nil (Bool.not_eq_true _ ▸ hb)
    refine ⟨Forest.ascending_insert h.ascending _, fun w => ?_, ?_⟩
    · rw [Forest.mem_words_insert hne, h.mem_iff, Finset.mem_insert, String.toList_inj]
    · dsimp only
      by_cases hword : Text.fold word ∈ words
      · rw [if_pos (h.isWord_iff.mpr hword), Finset.insert_eq_of_mem hword, h.size]
      · rw [if_neg (mt h.isWord_iff.mp hword), Finset.card_insert_of_notMem hword, h.size]

theorem pairwise : (t.forest.words.map String.ofList).Pairwise (· < ·) := by
  rw [List.pairwise_map]
  refine (Forest.pairwise_words h.ascending).imp fun hlt => ?_
  rw [String.lt_iff_toList_lt]
  simpa using hlt

theorem mem_map_iff (w : String) : w ∈ t.forest.words.map String.ofList ↔ w ∈ words := by
  rw [← h.mem_iff, List.mem_map]
  constructor
  · rintro ⟨cs, hcs, rfl⟩
    simpa using hcs
  · exact fun hw => ⟨w.toList, hw, String.ofList_toList⟩

theorem contains_iff (w : String) : t.contains w = true ↔ Text.fold w ∈ words :=
  h.isWord_iff

theorem beginning_eq (text : String) : beginning words text =
    (t.forest.words.filter text.toList.isPrefixOf).map String.ofList := by
  have hmap : (t.forest.words.filter text.toList.isPrefixOf).map String.ofList =
      (t.forest.words.map String.ofList).filter (Text.begins text) := by
    rw [List.filter_map]
    congr 2
    funext cs
    simp [Text.begins]
  have hsorted := h.pairwise.filter (Text.begins text)
  have hset : ((t.forest.words.map String.ofList).filter (Text.begins text)).toFinset =
      words.filter fun w => Text.begins text w := by
    ext w
    rw [List.mem_toFinset, List.mem_filter, h.mem_map_iff, Finset.mem_filter]
  rw [beginning, hmap, ← hset]
  exact (List.toFinset_sort _ (hsorted.imp ne_of_lt)).mpr (hsorted.imp le_of_lt)

theorem find_eq {text : String} {limit : Int} (hb : Text.blank text = false) (hl : 0 < limit) :
    t.find text limit = (beginning words (Text.fold text)).take limit.toNat := by
  have hguard : ¬((Text.blank text || decide (limit ≤ 0)) = true) := by
    simp [hb, hl]
  have hwords := Forest.filter_words h.ascending (Text.fold text).toList
  rw [h.beginning_eq, hwords, find, if_neg hguard]
  cases hfind : t.forest.find? (Text.fold text).toList with
  | none => simp [hfind]
  | some found =>
    obtain ⟨isWord, down⟩ := found
    have hone : ∃ n, limit.toNat = n + 1 := ⟨limit.toNat - 1, by omega⟩
    obtain ⟨n, hn⟩ := hone
    cases isWord <;>
      simp [hfind, hn, Forest.gather_eq, List.map_take]

end Holds

theorem kept_insert (changes : List Change) (word : String) :
    kept (changes ++ [.insert word]) = if Text.blank word then kept changes
      else Insert.insert (Text.fold word) (kept changes) := by
  have hinserted : inserted (changes ++ [.insert word]) = word :: inserted changes := by
    simp [inserted]
  by_cases hb : Text.blank word = true <;> simp [kept, hinserted, hb]

theorem kept_clear (changes : List Change) : kept (changes ++ [.clear]) = ∅ := by
  simp [kept, inserted]

/-- Every change keeps the trie in step with the set. -/
theorem holds_after (changes : List Change) : (after changes).Holds (kept changes) := by
  induction changes using List.reverseRecOn with
  | nil => exact holds_empty
  | append_singleton changes c ih =>
    have hstep : after (changes ++ [c]) = (after changes).change c := by simp [after]
    cases c with
    | insert word => exact hstep ▸ kept_insert changes word ▸ ih.insert word
    | clear => exact hstep ▸ kept_clear changes ▸ holds_empty

/-- A trie answers as the set of words does that it stands for. -/
structure Indexes (t : Trie) (words : Finset String) : Prop where
  size : t.size = words.card
  contains : ∀ w, t.contains w = true ↔ Text.fold w ∈ words
  find : ∀ text limit, t.find text limit =
    if Text.blank text ∨ limit ≤ 0 then []
    else (beginning words (Text.fold text)).take limit.toNat
  /-- The order is that of the characters' numbers, from the first character on. -/
  ascending : ∀ text limit, (t.find text limit).Pairwise fun v w => v.toList < w.toList
  first : ∀ text, t.first? text =
    if Text.blank text then none else (beginning words (Text.fold text)).head?

/-- Whatever was inserted and cleared, the trie is the ordered set of the folded words. -/
theorem indexes_after (changes : List Change) : (after changes).Indexes (kept changes) := by
  have h := holds_after changes
  have hfind : ∀ text limit, (after changes).find text limit =
      if Text.blank text ∨ limit ≤ 0 then []
      else (beginning (kept changes) (Text.fold text)).take limit.toNat := by
    intro text limit
    by_cases hguard : Text.blank text = true ∨ limit ≤ 0
    · rw [if_pos hguard, find]
      exact if_pos (by simpa using hguard)
    · rw [if_neg hguard]
      obtain ⟨hb, hl⟩ := not_or.mp hguard
      exact h.find_eq (Bool.not_eq_true _ ▸ hb) (Int.not_le.mp hl)
  refine ⟨h.size, h.contains_iff, hfind, fun text limit => ?_, fun text => ?_⟩
  · have hsorted : (beginning (kept changes) (Text.fold text)).Pairwise fun v w =>
        v.toList < w.toList :=
      (Finset.sortedLT_sort _).pairwise.imp fun hlt => String.lt_iff_toList_lt.mp hlt
    rw [hfind]
    split
    · exact List.Pairwise.nil
    · exact hsorted.sublist (List.take_sublist _ _)
  · rw [first?, hfind]
    cases Text.blank text with
    | true => simp
    | false => cases beginning (kept changes) (Text.fold text) <;> simp

end Trie

end PipelineShell
