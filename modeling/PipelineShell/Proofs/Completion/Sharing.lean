import PipelineShell.Proofs.Completion.Suggestions

/-! What the candidates for a text share. They are in ascending order, so that what the first and
the last of them begin with, all begin with; and they are folded, so that comparing but for case is
comparing. -/

namespace PipelineShell

namespace Text

variable {s t u : String}

theorem begins_trans (h : begins s t = true) (h' : begins t u = true) : begins s u = true := by
  rw [begins_iff] at *
  exact h.trans h'

theorem length_le_of_begins (h : begins s t = true) : s.length ≤ t.length := by
  rw [← String.length_toList, ← String.length_toList]
  exact (begins_iff.mp h).length_le

theorem eq_of_begins (h : begins s t = true) (hl : t.length ≤ s.length) : s = t := by
  rw [← String.length_toList, ← String.length_toList] at hl
  exact String.toList_inj.mp ((begins_iff.mp h).eq_of_length_le hl)

theorem fold_of_begins (h : begins s t = true) (ht : fold t = t) : fold s = s :=
  fold_eq_self_iff.mpr fun c hc => fold_eq_self_iff.mp ht c ((begins_iff.mp h).subset hc)

end Text

theorem exists_cons_cons {α : Type} {l : List α} (h : 2 ≤ l.length) :
    ∃ a b rest, l = a :: b :: rest := by
  cases l with
  | nil => exact absurd h (by simp)
  | cons a l =>
    cases l with
    | nil => exact absurd h (by simp)
    | cons b rest => exact ⟨a, b, rest, rfl⟩

/-- The longest text that all the texts begin with: each other one is a beginning of it. -/
structure LongestShared (shared : String) (l : List String) : Prop where
  begins : ∀ w ∈ l, Text.begins shared w = true
  longest : ∀ t, (∀ w ∈ l, Text.begins t w = true) → Text.begins t shared = true

theorem LongestShared.unique {s t : String} {l : List String} (hs : LongestShared s l)
    (ht : LongestShared t l) : s = t :=
  have hst := ht.longest s hs.begins
  have hts := hs.longest t ht.begins
  Text.eq_of_begins hst (Text.length_le_of_begins hts)

theorem commonLength_le (as bs : List Char) : commonLength as bs ≤ as.length := by
  induction as generalizing bs with
  | nil => simp [commonLength]
  | cons a as ih =>
    cases bs with
    | nil => simp [commonLength]
    | cons b bs =>
      have hrest := ih bs
      unfold commonLength
      split
      · exact Nat.succ_le_succ hrest
      · exact Nat.zero_le _

theorem length_le_commonLength (t as bs : List Char) :
    t.length ≤ commonLength (t ++ as) (t ++ bs) := by
  induction t with
  | nil => exact Nat.zero_le _
  | cons c t ih => simpa [commonLength] using ih

def commonStart (first last : String) : String :=
  String.ofList (first.toList.take (commonLength first.toList last.toList))

theorem length_commonStart (first last : String) :
    (commonStart first last).length = commonLength first.toList last.toList := by
  rw [commonStart, String.length_ofList, List.length_take]
  exact Nat.min_eq_left (commonLength_le _ _)

theorem begins_commonStart {t first last : String} (hfirst : Text.begins t first = true)
    (hlast : Text.begins t last = true) : Text.begins t (commonStart first last) = true := by
  rw [Text.begins_iff] at hfirst hlast ⊢
  obtain ⟨as, has⟩ := hfirst
  obtain ⟨bs, hbs⟩ := hlast
  have hlength := length_le_commonLength t.toList as bs
  rw [has, hbs] at hlength
  rw [commonStart, String.toList_ofList, List.prefix_take_iff]
  exact ⟨has ▸ List.prefix_append _ _, hlength⟩

/-- What a lookup gives: folded words that begin with the text, in ascending order. -/
structure Candidates (start : String) (l : List String) : Prop where
  ascending : l.Pairwise (· < ·)
  begins : ∀ w ∈ l, Text.begins start w = true
  folded : ∀ w ∈ l, Text.fold w = w

namespace Candidates

variable {start : String} {l : List String}

theorem nil : Candidates start [] :=
  ⟨.nil, fun _ h => absurd h List.not_mem_nil, fun _ h => absurd h List.not_mem_nil⟩

theorem begins_shared (h : Candidates start l) {shared : String} (hs : LongestShared shared l) :
    Text.begins start shared = true :=
  hs.longest start h.begins

theorem longestShared {word next : String} {more : List String}
    (h : Candidates start (word :: next :: more)) :
    LongestShared (commonStart word ((next :: more).getLast (List.cons_ne_nil _ _)))
      (word :: next :: more) := by
  have hlast : (next :: more).getLast (List.cons_ne_nil _ _) ∈ word :: next :: more :=
    List.mem_cons_of_mem word (List.getLast_mem _)
  have hcommon := take_commonLength_prefix
    (Text.fold_eq_self_iff.mp (h.folded _ List.mem_cons_self))
    (Text.fold_eq_self_iff.mp (h.folded _ hlast))
  refine ⟨fun w hw => Completion.begins_of_ends h.ascending ?_ ?_ hw, fun t ht => ?_⟩
  · simpa [commonStart] using List.take_prefix _ word.toList
  · simpa [commonStart] using hcommon
  · exact begins_commonStart (ht word List.mem_cons_self) (ht _ hlast)

end Candidates

namespace Trie

theorem find_of_refused {t : Trie} {text : String} {limit : Int}
    (h : Text.blank text = true ∨ limit ≤ 0) : t.find text limit = [] :=
  if_pos (by simpa using h)

theorem fold_of_mem_kept {changes : List Change} {w : String} (h : w ∈ kept changes) :
    Text.fold w = w := by
  obtain ⟨v, _, rfl⟩ := List.mem_map.mp (List.mem_toFinset.mp h)
  exact Text.fold_fold v

end Trie

theorem Suggestion.isPartial_iff {s : Suggestion} : s.isPartial = true ↔ ∃ t, s = ⟨[t], false⟩ := by
  obtain ⟨candidates, complete⟩ := s
  constructor
  · intro h
    obtain ⟨hcomplete, hlength⟩ : complete = false ∧ candidates.length = 1 := by
      simpa [isPartial] using h
    obtain ⟨t, rfl⟩ := List.length_eq_one_iff.mp hlength
    exact ⟨t, by rw [hcomplete]⟩
  · rintro ⟨t, ht⟩
    rw [ht]
    rfl

namespace Completion

def candidates (c : Completion) (text : String) : List String :=
  c.words.find text c.limit

theorem candidates_after (changes : List Trie.Change) (limit : Int) (text : String) :
    Candidates (Text.fold text) (candidates ⟨Trie.after changes, limit⟩ text) := by
  rw [candidates]
  by_cases hrefused : Text.blank text = true ∨ limit ≤ 0
  · rw [Trie.find_of_refused hrefused]
    exact .nil
  · obtain ⟨hb, hl⟩ := not_or.mp hrefused
    rw [(Trie.holds_after changes).find_eq (Bool.not_eq_true _ ▸ hb) (Int.not_le.mp hl)]
    have hmem : ∀ w ∈ (Trie.beginning (Trie.kept changes) (Text.fold text)).take limit.toNat,
        w ∈ Trie.kept changes ∧ Text.begins (Text.fold text) w = true :=
      fun w hw => Trie.mem_beginning.mp (List.mem_of_mem_take hw)
    exact ⟨(Trie.pairwise_beginning _ _).sublist (List.take_sublist _ _),
      fun w hw => (hmem w hw).2, fun w hw => Trie.fold_of_mem_kept (hmem w hw).1⟩

section

variable {c : Completion} {text t : String}

theorem suggest_of_two (hc : Candidates (Text.fold text) (c.candidates text))
    (htwo : 2 ≤ (c.candidates text).length) :
    ∃ first last shared, (c.candidates text).head? = some first ∧
      (c.candidates text).getLast? = some last ∧ LongestShared shared (c.candidates text) ∧
      commonLength first.toList last.toList = shared.length ∧
      c.suggest text =
        if text.length < shared.length then ⟨[shared], false⟩ else ⟨c.candidates text, false⟩ := by
  obtain ⟨word, next, more, hl⟩ := exists_cons_cons htwo
  rw [suggest_eq, ← candidates]
  rw [hl] at hc ⊢
  have hlast := List.getLast?_eq_some_getLast (List.cons_ne_nil next more)
  have hlength := length_commonStart word ((next :: more).getLast (List.cons_ne_nil _ _))
  refine ⟨word, _, _, rfl, ?_, hc.longestShared, hlength.symm, ?_⟩
  · rw [List.getLast?_cons_cons, hlast]
  · rw [hlength]
    rfl

theorem suggest_of_longestShared (hc : Candidates (Text.fold text) (c.candidates text))
    (htwo : 2 ≤ (c.candidates text).length) (ht : LongestShared t (c.candidates text)) :
    c.suggest text =
      if text.length < t.length then ⟨[t], false⟩ else ⟨c.candidates text, false⟩ := by
  obtain ⟨_, _, shared, _, _, hshared, _, hsuggest⟩ := suggest_of_two hc htwo
  rwa [hshared.unique ht] at hsuggest

theorem suggestFrom_of_short (text other : String) {l : List String} (h : l.length < 2) :
    suggestFrom text l = suggestFrom other l := by
  cases l with
  | nil => rfl
  | cons word l =>
    cases l with
    | nil => rfl
    | cons next more => exact absurd h (by simp)

theorem two_le_of_partial (h : c.suggest text = ⟨[t], false⟩) :
    2 ≤ (c.candidates text).length := by
  rw [suggest_eq, ← candidates] at h
  cases hl : c.candidates text with
  | nil => simp [hl, suggestFrom] at h
  | cons word l =>
    cases l with
    | nil => simp [hl, suggestFrom] at h
    | cons next more => exact Nat.le_add_left 2 more.length

theorem longestShared_of_partial (hc : Candidates (Text.fold text) (c.candidates text))
    (h : c.suggest text = ⟨[t], false⟩) :
    LongestShared t (c.candidates text) ∧ text.length < t.length := by
  have htwo := two_le_of_partial h
  obtain ⟨_, _, shared, _, _, hshared, _, hsuggest⟩ := suggest_of_two hc htwo
  rw [h] at hsuggest
  split at hsuggest
  · next hlt =>
    cases hsuggest
    exact ⟨hshared, hlt⟩
  · rw [← (Suggestion.mk.inj hsuggest).1] at htwo
    exact absurd htwo (by simp)

end

/-- What comparing the first candidate with the last one tells of all of them. -/
structure EndsTell (c : Completion) (text : String) : Prop where
  /-- The two have as many characters in common as all candidates share, those of the folded text
  among them. -/
  common : 2 ≤ (c.candidates text).length → ∃ first last shared,
    (c.candidates text).head? = some first ∧ (c.candidates text).getLast? = some last ∧
    LongestShared shared (c.candidates text) ∧
    commonLength first.toList last.toList = shared.length ∧
    (Text.fold text).length ≤ commonLength first.toList last.toList
  suggested : (c.suggest text).isPartial = true → ∃ shared, c.suggest text = ⟨[shared], false⟩ ∧
    2 ≤ (c.candidates text).length ∧ LongestShared shared (c.candidates text) ∧
    Text.begins (Text.fold text) shared = true

/-- Whatever was inserted, the first and the last candidate stand for all of them. -/
theorem ends_tell (changes : List Trie.Change) (limit : Int) (text : String) :
    EndsTell ⟨Trie.after changes, limit⟩ text := by
  have hc := candidates_after changes limit text
  constructor
  · intro htwo
    obtain ⟨first, last, shared, hfirst, hlast, hshared, hlength, _⟩ := suggest_of_two hc htwo
    refine ⟨first, last, shared, hfirst, hlast, hshared, hlength, ?_⟩
    exact hlength.symm ▸ Text.length_le_of_begins (hc.begins_shared hshared)
  · intro h
    obtain ⟨shared, h⟩ := Suggestion.isPartial_iff.mp h
    have hshared := (longestShared_of_partial hc h).1
    exact ⟨shared, h, two_le_of_partial h, hshared, hc.begins_shared hshared⟩

example : suggest ⟨Trie.after [.insert "tail", .insert "Table", .insert "tab"], 9⟩ "T" =
    ⟨["ta"], false⟩ := by
  decide +kernel

end Completion

end PipelineShell
