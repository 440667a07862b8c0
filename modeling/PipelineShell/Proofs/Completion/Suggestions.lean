import PipelineShell.Proofs.Completion.Tries
import PipelineShell.Suggestion

/-! What a single suggestion says about the words that could have been meant. The policy looks at
the candidates that are listed, so it speaks for all of them only if none was cut off. -/

namespace PipelineShell

theorem isPrefix_of_between {t a b x : List Char} (ha : t <+: a) (hb : t <+: b) (hax : a ≤ x)
    (hxb : x ≤ b) : t <+: x := by
  induction t generalizing a b x with
  | nil => exact List.nil_prefix
  | cons c t ih =>
    obtain ⟨a, rfl⟩ := ha
    obtain ⟨b, rfl⟩ := hb
    cases x with
    | nil => exact absurd hax (not_le.mpr List.Lex.nil)
    | cons d x =>
      have hcd : c ≤ d := by
        refine not_lt.mp fun hlt => ?_
        exact absurd hax (not_le.mpr (List.Lex.rel hlt))
      have hdc : d ≤ c := by
        refine not_lt.mp fun hlt => ?_
        exact absurd hxb (not_le.mpr (List.Lex.rel hlt))
      obtain rfl := le_antisymm hcd hdc
      have hax' : t ++ a ≤ x := not_lt.mp fun hlt => absurd hax (not_le.mpr (List.Lex.cons hlt))
      have hxb' : x ≤ t ++ b := not_lt.mp fun hlt => absurd hxb (not_le.mpr (List.Lex.cons hlt))
      have hx := ih (List.prefix_append t a) (List.prefix_append t b) hax' hxb'
      exact List.cons_prefix_cons.mpr ⟨rfl, hx⟩

theorem take_commonLength_prefix {as bs : List Char}
    (has : ∀ c ∈ as, Text.foldTable.mapChar c = [c])
    (hbs : ∀ c ∈ bs, Text.foldTable.mapChar c = [c]) :
    as.take (commonLength as bs) <+: bs := by
  induction as generalizing bs with
  | nil => simp [commonLength]
  | cons a as ih =>
    cases bs with
    | nil => simp [commonLength]
    | cons b bs =>
      have ha := has a List.mem_cons_self
      have hb := hbs b List.mem_cons_self
      by_cases hab : a = b
      · subst hab
        have hrest := ih (fun c hc => has c (List.mem_cons_of_mem a hc))
          fun c hc => hbs c (List.mem_cons_of_mem a hc)
        simpa [commonLength] using hrest
      · simp [commonLength, ha, hb, hab]

theorem Trie.mem_beginning {words : Finset String} {text w : String} :
    w ∈ beginning words text ↔ w ∈ words ∧ Text.begins text w = true := by
  rw [beginning, Finset.mem_sort, Finset.mem_filter]

theorem Trie.pairwise_beginning (words : Finset String) (text : String) :
    (beginning words text).Pairwise (· < ·) :=
  (Finset.sortedLT_sort _).pairwise

theorem Text.begins_iff {start text : String} :
    begins start text = true ↔ start.toList <+: text.toList := by
  simp [begins]

namespace Completion

def suggestFrom (text : String) : List String → Suggestion
  | [] => ⟨[], false⟩
  | [word] => ⟨[word], true⟩
  | word :: next :: more =>
    let common := commonLength word.toList ((next :: more).getLast (List.cons_ne_nil _ _)).toList
    if text.length < common then ⟨[String.ofList (word.toList.take common)], false⟩
    else ⟨word :: next :: more, false⟩

theorem suggest_eq (c : Completion) (text : String) :
    c.suggest text = suggestFrom text (c.words.find text c.limit) := by
  unfold suggest
  generalize c.words.find text c.limit = l
  match l with
  | [] | [_] | _ :: _ :: _ => rfl

/-- A single suggestion is the only candidate of the list, and complete then, or it is a part of the
first candidate that the last one begins with too. -/
theorem suggestFrom_single {text suggested : String} {complete : Bool} {l : List String}
    (hl : ∀ w ∈ l, ∀ c ∈ w.toList, Text.foldTable.mapChar c = [c])
    (h : suggestFrom text l = ⟨[suggested], complete⟩) :
    l = [suggested] ∧ complete = true ∨ complete = false ∧ ∃ word next more,
      l = word :: next :: more ∧ suggested.toList <+: word.toList ∧
        suggested.toList <+: ((next :: more).getLast (List.cons_ne_nil _ _)).toList := by
  match l, h with
  | [], h => cases h
  | [word], h =>
    cases h
    exact .inl ⟨rfl, rfl⟩
  | word :: next :: more, h =>
    have hlast : (next :: more).getLast (List.cons_ne_nil _ _) ∈ word :: next :: more :=
      List.mem_cons_of_mem word (List.getLast_mem _)
    have hcommon := take_commonLength_prefix (hl word List.mem_cons_self) (hl _ hlast)
    unfold suggestFrom at h
    dsimp only at h
    split at h
    · cases h
      refine .inr ⟨rfl, word, next, more, rfl, ?_, ?_⟩
      · simpa using List.take_prefix _ word.toList
      · simpa using hcommon
    · cases h

/-- What the first and the last candidate begin with, those between them begin with as well. -/
theorem begins_of_ends {suggested word next : String} {more : List String}
    (hsorted : (word :: next :: more).Pairwise (· < ·)) (hfirst : suggested.toList <+: word.toList)
    (hlast : suggested.toList <+: ((next :: more).getLast (List.cons_ne_nil _ _)).toList)
    {w : String}
    (hw : w ∈ word :: next :: more) : Text.begins suggested w = true := by
  obtain ⟨hword, hrest⟩ := List.pairwise_cons.mp hsorted
  have hle : w ≤ (next :: more).getLast (List.cons_ne_nil _ _) := by
    rcases List.mem_cons.mp hw with rfl | hw
    · exact (hword _ (List.getLast_mem _)).le
    · have hlasts := List.pairwise_append.mp
        ((List.dropLast_append_getLast (l := next :: more) (by simp)).symm ▸ hrest)
      rw [← List.dropLast_append_getLast (l := next :: more) (by simp)] at hw
      rcases List.mem_append.mp hw with hw | hw
      · exact (hlasts.2.2 w hw _ (List.mem_singleton_self _)).le
      · exact (List.mem_singleton.mp hw).le
  have hge : word ≤ w := by
    rcases List.mem_cons.mp hw with rfl | hw
    · exact le_refl w
    · exact (hword w hw).le
  rw [Text.begins_iff]
  refine isPrefix_of_between hfirst hlast ?_ ?_
  · exact String.le_iff_toList_le.mp hge
  · exact String.le_iff_toList_le.mp hle

/-- What a single suggestion says about the words of a set. -/
structure Tells (words : Finset String) (limit : Nat) (text suggested : String) (complete : Bool) :
    Prop where
  /-- Every candidate that is listed begins with what is suggested. -/
  listed : ∀ w ∈ (Trie.beginning words (Text.fold text)).take limit,
    Text.begins suggested w = true
  /-- No word at all is ruled out if all candidates are listed. -/
  all : (Trie.beginning words (Text.fold text)).length ≤ limit →
    ∀ w ∈ words, Text.begins (Text.fold text) w = true → Text.begins suggested w = true
  known : complete = true → suggested ∈ words ∧ Text.begins (Text.fold text) suggested = true
  /-- A suggestion that is marked complete is the only candidate just when all are listed. -/
  only : complete = true →
    ((∀ w ∈ words, Text.begins (Text.fold text) w = true → w = suggested) ↔
      (Trie.beginning words (Text.fold text)).length ≤ limit)

theorem length_le_one_of_forall_eq {l : List String} (hl : l.Pairwise (· < ·)) (word : String)
    (h : ∀ w ∈ l, w = word) : l.length ≤ 1 := by
  match l, hl with
  | [], _ => exact Nat.zero_le 1
  | [_], _ => exact le_refl 1
  | v :: w :: _, hl =>
    have hlt := (List.pairwise_cons.mp hl).1 w List.mem_cons_self
    rw [h v List.mem_cons_self, h w (by simp)] at hlt
    exact absurd hlt (lt_irrefl _)

theorem Tells.of_listed {words : Finset String} {limit : Nat} {text suggested : String}
    {complete : Bool} (hl : 1 ≤ limit)
    (hlisted : ∀ w ∈ (Trie.beginning words (Text.fold text)).take limit,
      Text.begins suggested w = true)
    (hcomplete : complete = true →
      (Trie.beginning words (Text.fold text)).take limit = [suggested]) :
    Tells words limit text suggested complete := by
  have hsorted := Trie.pairwise_beginning words (Text.fold text)
  have hmem : ∀ w, w ∈ Trie.beginning words (Text.fold text) ↔
      w ∈ words ∧ Text.begins (Text.fold text) w = true := fun w => Trie.mem_beginning
  have hall : (Trie.beginning words (Text.fold text)).length ≤ limit →
      (Trie.beginning words (Text.fold text)).take limit =
        Trie.beginning words (Text.fold text) := List.take_of_length_le
  refine ⟨hlisted, fun hle w hw hb => ?_, fun hc => ?_, fun hc => ⟨fun honly => ?_, fun hle => ?_⟩⟩
  · exact hlisted w ((hall hle).symm ▸ (hmem w).mpr ⟨hw, hb⟩)
  · have hsuggested := List.mem_singleton_self suggested
    rw [← hcomplete hc] at hsuggested
    exact (hmem suggested).mp (List.mem_of_mem_take hsuggested)
  · refine le_trans (length_le_one_of_forall_eq hsorted suggested fun w hw => ?_) hl
    exact honly w ((hmem w).mp hw).1 ((hmem w).mp hw).2
  · intro w hw hb
    have hmem' := (hmem w).mpr ⟨hw, hb⟩
    rw [← hall hle, hcomplete hc] at hmem'
    exact List.mem_singleton.mp hmem'

/-- A single suggestion rules out none of the candidates that are listed, and none at all unless
some were cut off at the limit. -/
theorem suggest_tells {changes : List Trie.Change} {limit : Int} (hlimit : 1 ≤ limit)
    {text suggested : String} {complete : Bool}
    (h : suggest ⟨Trie.after changes, limit⟩ text = ⟨[suggested], complete⟩) :
    Tells (Trie.kept changes) limit.toNat text suggested complete := by
  have hholds := Trie.holds_after changes
  rw [suggest_eq] at h
  have hblank : Text.blank text = false := by
    cases hb : Text.blank text with
    | false => rfl
    | true => simp [Trie.find, hb, suggestFrom] at h
  have hpos : 0 < limit := by omega
  rw [hholds.find_eq hblank hpos] at h
  have hfixed : ∀ w ∈ (Trie.beginning (Trie.kept changes) (Text.fold text)).take limit.toNat,
      ∀ c ∈ w.toList, Text.foldTable.mapChar c = [c] := by
    intro w hw c hc
    have hkept := (Trie.mem_beginning.mp (List.mem_of_mem_take hw)).1
    obtain ⟨v, _, rfl⟩ := List.mem_map.mp (List.mem_toFinset.mp hkept)
    exact Text.mapChar_of_mem_fold hc
  have hsorted := (Trie.pairwise_beginning (Trie.kept changes) (Text.fold text)).sublist
    (List.take_sublist limit.toNat _)
  have hone : 1 ≤ limit.toNat := by omega
  rcases suggestFrom_single hfixed h with ⟨hl, hc⟩ | ⟨hc, word, next, more, hl, hfirst, hlast⟩
  · refine .of_listed hone (fun w hw => ?_) fun _ => hl
    rw [hl] at hw
    rw [List.mem_singleton.mp hw, Text.begins_iff]
  · refine .of_listed hone (fun w hw => ?_) fun hcomplete => ?_
    · exact begins_of_ends (hl ▸ hsorted) hfirst hlast (hl ▸ hw)
    · rw [hc] at hcomplete
      cases hcomplete

theorem suggest_tells_shared :
    suggest ⟨Trie.after [.insert "dog", .clear, .insert "Cat", .insert "car"], 2⟩ "C" =
      ⟨["ca"], false⟩ ∧
    Tells (Trie.kept [.insert "dog", .clear, .insert "Cat", .insert "car"]) 2 "C" "ca" false :=
  have h : suggest ⟨Trie.after [.insert "dog", .clear, .insert "Cat", .insert "car"], 2⟩ "C" =
      ⟨["ca"], false⟩ := by decide +kernel
  ⟨h, suggest_tells (by decide) h⟩

/-- A word that is cut off at the limit is ruled out. -/
example : suggest ⟨Trie.after [.insert "abc", .insert "abd"], 1⟩ "a" = ⟨["abc"], true⟩ := by
  decide +kernel

end Completion

end PipelineShell
