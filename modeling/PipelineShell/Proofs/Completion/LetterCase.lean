import PipelineShell.Proofs.Completion.Sharing

/-! Completion of texts that differ in letter case alone. They have the same candidates, for these
are looked up by the folded text. But a partial answer has to be longer than the text as it was
typed, and for a text that folding makes longer its own folding is. -/

namespace PipelineShell

/-- Folding makes several characters of one. -/
def Text.Grows (text : String) : Prop :=
  text.length < (Text.fold text).length

theorem Trie.find_congr (t : Trie) {text other : String} (limit : Int)
    (h : Text.fold text = Text.fold other) : t.find text limit = t.find other limit := by
  rw [find, find, ← Text.blank_fold text, ← Text.blank_fold other, h]

namespace Completion

variable {c : Completion} {text other t : String}

/-- Two candidates or more part right behind the folded text. -/
def Forks (c : Completion) (text : String) : Prop :=
  2 ≤ (c.candidates text).length ∧ LongestShared (Text.fold text) (c.candidates text)

theorem suggest_eq_fold_iff (hc : Candidates (Text.fold text) (c.candidates text))
    (h : c.Forks text) : c.suggest text = ⟨[Text.fold text], false⟩ ↔ Text.Grows text := by
  rw [suggest_of_longestShared hc h.1 h.2, Text.Grows]
  split
  · next hgrows => exact ⟨fun _ => hgrows, fun _ => rfl⟩
  · next hgrows =>
    refine ⟨fun hsame => ?_, fun hgrows' => absurd hgrows' hgrows⟩
    have htwo := h.1
    rw [(Suggestion.mk.inj hsame).1] at htwo
    exact absurd htwo (by simp)

theorem suggest_of_not_grows (hc : Candidates (Text.fold text) (c.candidates text))
    (h : c.Forks text) (hgrows : ¬Text.Grows text) :
    c.suggest text = ⟨c.candidates text, false⟩ := by
  rw [suggest_of_longestShared hc h.1 h.2]
  exact if_neg hgrows

theorem suggest_of_ne_fold (hc : Candidates (Text.fold text) (c.candidates text))
    (htwo : 2 ≤ (c.candidates text).length) (ht : LongestShared t (c.candidates text))
    (hne : t ≠ Text.fold text) : c.suggest text = ⟨[t], false⟩ := by
  have hlonger : (Text.fold text).length < t.length := by
    refine not_le.mp fun hle => hne ?_
    exact (Text.eq_of_begins (hc.begins_shared ht) hle).symm
  rw [suggest_of_longestShared hc htwo ht]
  exact if_pos (lt_of_le_of_lt (Text.length_le_length_fold text) hlonger)

theorem suggest_congr_of_not_forks
    (hc : ∀ text, Candidates (Text.fold text) (c.candidates text))
    (hfold : Text.fold text = Text.fold other) (h : ¬c.Forks text) :
    c.suggest text = c.suggest other := by
  have hsame : c.candidates text = c.candidates other := c.words.find_congr c.limit hfold
  by_cases htwo : 2 ≤ (c.candidates text).length
  · obtain ⟨_, _, t, _, _, ht, _, _⟩ := suggest_of_two (hc text) htwo
    have hne : t ≠ Text.fold text := fun heq => h ⟨htwo, heq ▸ ht⟩
    rw [suggest_of_ne_fold (hc text) htwo ht hne,
      suggest_of_ne_fold (hc other) (hsame ▸ htwo) (hsame ▸ ht) (hfold ▸ hne)]
  · rw [suggest_eq, suggest_eq, ← candidates, ← candidates, ← hsame]
    exact suggestFrom_of_short text other (Nat.lt_of_not_le htwo)

theorem forks_iff_of_partial (hc : Candidates (Text.fold text) (c.candidates text))
    (h : c.suggest text = ⟨[t], false⟩) : c.Forks text ↔ t = Text.fold text := by
  obtain ⟨ht, _⟩ := longestShared_of_partial hc h
  exact ⟨fun hforks => ht.unique hforks.2, fun heq => ⟨two_le_of_partial h, heq ▸ ht⟩⟩

/-- What letter case has to do with the answers to two texts. -/
structure ByCase (c : Completion) (text other : String) : Prop where
  candidates : c.candidates text = c.candidates other
  /-- The answers are the same, flags and all, unless the candidates part behind the folded text and
  folding makes just one of the two texts longer. -/
  suggest_iff : c.suggest text = c.suggest other ↔
    (c.Forks text → (Text.Grows text ↔ Text.Grows other))
  /-- A partial answer is longer than the text, and longer than the folded text unless they part
  there. -/
  longer : ∀ t, c.suggest text = ⟨[t], false⟩ →
    Text.begins (Text.fold text) t = true ∧ text.length < t.length ∧
    ((Text.fold text).length < t.length ↔ ¬c.Forks text) ∧
    (c.Forks text → t = Text.fold text ∧ Text.Grows text)

theorem suggest_iff_of_forks (hc : ∀ text, Candidates (Text.fold text) (c.candidates text))
    (hfold : Text.fold text = Text.fold other) (h : c.Forks text) :
    c.suggest text = c.suggest other ↔ (Text.Grows text ↔ Text.Grows other) := by
  have hsame : c.candidates text = c.candidates other := c.words.find_congr c.limit hfold
  have hother : c.Forks other := by
    rwa [Forks, ← hfold, ← hsame]
  have hiff := suggest_eq_fold_iff (hc text) h
  have hiff' := suggest_eq_fold_iff (hc other) hother
  rw [← hfold] at hiff'
  constructor
  · intro hsuggest
    rw [← hiff, ← hiff', hsuggest]
  · intro hgrows
    by_cases htext : Text.Grows text
    · rw [hiff.mpr htext, hiff'.mpr (hgrows.mp htext)]
    · rw [suggest_of_not_grows (hc text) h htext,
        suggest_of_not_grows (hc other) hother (fun ho => htext (hgrows.mpr ho)), hsame]

/-- Texts that differ in case alone are completed alike, whatever was inserted, as far as folding
leaves them as long as they are. -/
theorem suggest_by_case (changes : List Trie.Change) (limit : Int)
    (hfold : Text.fold text = Text.fold other) : ByCase ⟨Trie.after changes, limit⟩ text other := by
  have hc := candidates_after changes limit
  refine ⟨(Trie.after changes).find_congr limit hfold, ⟨fun hsuggest hforks => ?_, fun hiff => ?_⟩,
    fun t ht => ?_⟩
  · exact (suggest_iff_of_forks hc hfold hforks).mp hsuggest
  · by_cases hforks : Forks ⟨Trie.after changes, limit⟩ text
    · exact (suggest_iff_of_forks hc hfold hforks).mpr (hiff hforks)
    · exact suggest_congr_of_not_forks hc hfold hforks
  · obtain ⟨hshared, hlonger⟩ := longestShared_of_partial (hc text) ht
    have hbegins := (hc text).begins_shared hshared
    have hforks := forks_iff_of_partial (hc text) ht
    refine ⟨hbegins, hlonger, ?_, fun h => ?_⟩
    · rw [hforks]
      constructor
      · rintro hlt rfl
        exact lt_irrefl _ hlt
      · exact fun hne => not_le.mp fun hle => hne (Text.eq_of_begins hbegins hle).symm
    · obtain rfl := hforks.mp h
      exact ⟨rfl, hlonger⟩

/-- The text that folding makes longer is answered by its folding, and the other by a list. -/
theorem suggest_by_case_sharp : Text.fold "ß" = Text.fold "SS" ∧
    suggest ⟨Trie.after [.insert "ssh", .insert "sse"], 9⟩ "ß" = ⟨["ss"], false⟩ ∧
    suggest ⟨Trie.after [.insert "ssh", .insert "sse"], 9⟩ "SS" = ⟨["sse", "ssh"], false⟩ ∧
    ByCase ⟨Trie.after [.insert "ssh", .insert "sse"], 9⟩ "ß" "SS" :=
  have hfold : Text.fold "ß" = Text.fold "SS" := by decide +kernel
  ⟨hfold, by decide +kernel, by decide +kernel, suggest_by_case _ _ hfold⟩

end Completion

end PipelineShell
