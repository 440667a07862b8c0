import Mathlib.Data.Nat.Bitwise
import Mathlib.Data.String.Basic
import PipelineShell.Text.Blank
import PipelineShell.Text.Fold

/-! Folding a folded text changes nothing, no character is folded away, and a text is blank just
when its folding is. All are facts about the table: no character that it moves is one that it moves
another character to, and none of them is white space. -/

namespace PipelineShell.Text

def CaseRun.members (r : CaseRun) : List Nat :=
  (List.range ((r.last - r.first) / r.stride + 1)).map (r.first + r.stride * ·)

def CaseTable.sources (t : CaseTable) : List Nat :=
  t.runs.flatMap CaseRun.members ++ t.expansions.map (·.1)

def CaseTable.targets (t : CaseTable) : List Nat :=
  (t.runs.flatMap fun r => r.members.map fun n : Nat => (n + r.shift).toNat) ++
    t.expansions.flatMap (·.2)

/-- Some numbers as the bits of one, so that two lists are compared at once. -/
def mask (l : List Nat) : Nat :=
  l.foldr (fun n m => 2 ^ n ||| m) 0

theorem testBit_mask (l : List Nat) (n : Nat) : (mask l).testBit n = decide (n ∈ l) := by
  induction l with
  | nil => simp [mask]
  | cons m l ih =>
    have hm : mask (m :: l) = 2 ^ m ||| mask l := rfl
    rw [hm, Nat.testBit_or, ih, Nat.testBit_two_pow]
    by_cases h : m = n
    · simp [h]
    · simp [h, Ne.symm h]

theorem not_mem_of_mask {l l' : List Nat} (h : mask l &&& mask l' = 0) {n : Nat} (hn : n ∈ l') :
    n ∉ l := by
  intro hl
  have hbit : (mask l &&& mask l').testBit n = true := by
    rw [Nat.testBit_and, testBit_mask, testBit_mask]
    simp [hl, hn]
  rw [h, Nat.zero_testBit] at hbit
  exact absurd hbit (by decide)

theorem mem_members {r : CaseRun} {n : Nat} (hfirst : r.first ≤ n) (hlast : n ≤ r.last)
    (hstride : (n - r.first) % r.stride = 0) : n ∈ r.members := by
  have hn := Nat.mul_div_cancel' (Nat.dvd_of_mod_eq_zero hstride)
  have hle : (n - r.first) / r.stride ≤ (r.last - r.first) / r.stride :=
    Nat.div_le_div_right (by omega)
  refine List.mem_map.mpr ⟨(n - r.first) / r.stride, List.mem_range.mpr (by omega), ?_⟩
  omega

theorem exists_of_shift? {n : Nat} {d : Int} {rs : List CaseRun}
    (h : CaseRun.shift? n rs = some d) : ∃ r ∈ rs, n ∈ r.members ∧ d = r.shift := by
  induction rs with
  | nil => cases h
  | cons r rs ih =>
    unfold CaseRun.shift? at h
    by_cases hlt : n < r.first
    · simp [hlt] at h
    · by_cases hin : n ≤ r.last ∧ (n - r.first) % r.stride = 0
      · have hd : r.shift = d := by simpa [hlt, hin] using h
        have hmem : n ∈ r.members := mem_members (by omega) hin.1 hin.2
        exact ⟨r, List.mem_cons_self, hmem, hd.symm⟩
      · rw [if_neg hlt, if_neg (by simpa using hin)] at h
        obtain ⟨r', hr', hmem, hd⟩ := ih h
        exact ⟨r', List.mem_cons_of_mem r hr', hmem, hd⟩

theorem mem_of_expansion? {n : Nat} {ns : List Nat} {es : List (Nat × List Nat)}
    (h : expansion? n es = some ns) : (n, ns) ∈ es := by
  induction es with
  | nil => cases h
  | cons e es ih =>
    unfold expansion? at h
    by_cases hlt : n < e.1
    · simp [hlt] at h
    · by_cases heq : n = e.1
      · subst heq
        have hns : e.2 = ns := by simpa using h
        exact hns ▸ List.mem_cons_self
      · rw [if_neg hlt, if_neg (by simpa using heq)] at h
        exact List.mem_cons_of_mem e (ih h)

namespace CaseTable

variable {t : CaseTable} {c d : Char}

theorem mapChar_of_not_mem (h : c.toNat ∉ t.sources) : t.mapChar c = [c] := by
  have hexpansion : expansion? c.toNat t.expansions = none := by
    refine Option.eq_none_iff_forall_ne_some.mpr fun ns hns => h ?_
    exact List.mem_append_right _ (List.mem_map.mpr ⟨_, mem_of_expansion? hns, rfl⟩)
  have hshift : CaseRun.shift? c.toNat t.runs = none := by
    refine Option.eq_none_iff_forall_ne_some.mpr fun d hd => h ?_
    obtain ⟨r, hr, hmem, _⟩ := exists_of_shift? hd
    exact List.mem_append_left _ (List.mem_flatMap.mpr ⟨r, hr, hmem⟩)
  simp [mapChar, hexpansion, hshift]

theorem mem_mapChar (h : d ∈ t.mapChar c) :
    t.mapChar c = [d] ∧ d = c ∨ ∃ n ∈ t.targets, d = Char.ofNat n := by
  unfold mapChar at h ⊢
  cases hexpansion : expansion? c.toNat t.expansions with
  | some ns =>
    rw [hexpansion] at h
    obtain ⟨n, hn, hd⟩ := List.mem_map.mp h
    have hmem := mem_of_expansion? hexpansion
    exact .inr ⟨n, List.mem_append_right _ (List.mem_flatMap.mpr ⟨_, hmem, hn⟩), hd.symm⟩
  | none =>
    rw [hexpansion] at h
    cases hshift : CaseRun.shift? c.toNat t.runs with
    | none =>
      have hd : d = c := by simpa [hshift] using h
      exact .inl ⟨by rw [hd], hd⟩
    | some k =>
      obtain ⟨r, hr, hmem, rfl⟩ := exists_of_shift? hshift
      have hd : d = Char.ofNat (c.toNat + r.shift).toNat := by simpa [hshift] using h
      refine .inr ⟨_, List.mem_append_left _ (List.mem_flatMap.mpr ⟨r, hr, ?_⟩), hd⟩
      exact List.mem_map.mpr ⟨c.toNat, hmem, rfl⟩

end CaseTable

theorem toNat_ofNat_eq_or (n : Nat) : (Char.ofNat n).toNat = n ∨ (Char.ofNat n).toNat = 0 := by
  by_cases h : n.isValidChar
  · have hchar : Char.ofNat n = Char.ofNatAux n h := dif_pos h
    exact .inl (congrArg Char.toNat hchar)
  · have hnone : Char.ofNat n = '\x00' := dif_neg h
    exact .inr (congrArg Char.toNat hnone)

theorem fold_sources_targets :
    mask foldTable.sources &&& mask (0 :: foldTable.targets) = 0 := by
  decide +kernel

theorem fold_sources_visible : ∀ n ∈ foldTable.sources, isBlank (Char.ofNat n) = false := by
  decide +kernel

theorem fold_targets_visible : ∀ n ∈ foldTable.targets, isBlank (Char.ofNat n) = false := by
  decide +kernel

theorem fold_expansions_ne_nil : ∀ e ∈ foldTable.expansions, e.2 ≠ [] := by
  decide

theorem mapChar_of_mem_mapChar {c d : Char} (h : d ∈ foldTable.mapChar c) :
    foldTable.mapChar d = [d] := by
  rcases CaseTable.mem_mapChar h with ⟨hsame, rfl⟩ | ⟨n, hn, rfl⟩
  · exact hsame
  · refine CaseTable.mapChar_of_not_mem (not_mem_of_mask fold_sources_targets ?_)
    rcases toNat_ofNat_eq_or n with htoNat | htoNat
    · rw [htoNat]
      exact List.mem_cons_of_mem 0 hn
    · rw [htoNat]
      exact List.mem_cons_self

theorem mapChar_ne_nil (c : Char) : foldTable.mapChar c ≠ [] := by
  unfold CaseTable.mapChar
  cases hexpansion : expansion? c.toNat foldTable.expansions with
  | some ns =>
    have hns : ns ≠ [] := fold_expansions_ne_nil _ (mem_of_expansion? hexpansion)
    simpa using hns
  | none => cases CaseRun.shift? c.toNat foldTable.runs <;> simp

theorem toList_fold (s : String) : (fold s).toList = s.toList.flatMap foldTable.mapChar := by
  simp [fold, CaseTable.map]

theorem mapChar_of_mem_fold {s : String} {c : Char} (h : c ∈ (fold s).toList) :
    foldTable.mapChar c = [c] := by
  rw [toList_fold] at h
  obtain ⟨d, _, hd⟩ := List.mem_flatMap.mp h
  exact mapChar_of_mem_mapChar hd

theorem fold_eq_self_iff {s : String} :
    fold s = s ↔ ∀ c ∈ s.toList, foldTable.mapChar c = [c] := by
  constructor
  · intro h c hc
    exact mapChar_of_mem_fold (s := s) (h.symm ▸ hc)
  · intro h
    refine String.toList_injective ?_
    rw [toList_fold, List.flatMap_congr h, List.flatMap_singleton']

theorem fold_fold (s : String) : fold (fold s) = fold s :=
  fold_eq_self_iff.mpr fun _ hc => mapChar_of_mem_fold hc

theorem fold_eq_empty_iff {s : String} : fold s = "" ↔ s = "" := by
  constructor
  · intro h
    have hnil : s.toList.flatMap foldTable.mapChar = [] := by
      rw [← toList_fold, h]
      rfl
    refine String.toList_eq_nil_iff.mp (List.eq_nil_iff_forall_not_mem.mpr fun c hc => ?_)
    exact mapChar_ne_nil c (List.flatMap_eq_nil_iff.mp hnil c hc)
  · rintro rfl
    rfl

theorem length_le_length_fold (s : String) : s.length ≤ (fold s).length := by
  rw [← String.length_toList, ← String.length_toList, toList_fold]
  induction s.toList with
  | nil => exact Nat.zero_le _
  | cons c cs ih =>
    have hc := List.length_pos_iff.mpr (mapChar_ne_nil c)
    rw [List.flatMap_cons, List.length_append, List.length_cons]
    omega

theorem mapChar_of_isBlank {c : Char} (h : isBlank c = true) : foldTable.mapChar c = [c] := by
  refine CaseTable.mapChar_of_not_mem fun hc => ?_
  have hvisible := fold_sources_visible _ hc
  rw [Char.ofNat_toNat, h] at hvisible
  cases hvisible

theorem all_isBlank_mapChar (c : Char) : (foldTable.mapChar c).all isBlank = isBlank c := by
  cases h : isBlank c with
  | true => simp [mapChar_of_isBlank h, h]
  | false =>
    obtain ⟨d, ds, hds⟩ := List.exists_cons_of_ne_nil (mapChar_ne_nil c)
    have hmem : d ∈ foldTable.mapChar c := hds ▸ List.mem_cons_self
    have hd : isBlank d = false := by
      rcases CaseTable.mem_mapChar hmem with ⟨_, rfl⟩ | ⟨n, hn, rfl⟩
      · exact h
      · exact fold_targets_visible n hn
    simp [hds, hd]

theorem blank_fold (s : String) : blank (fold s) = blank s := by
  rw [blank, blank, toList_fold, List.all_flatMap]
  exact congrArg s.toList.all (funext all_isBlank_mapChar)

theorem toList_fold_ne_nil {s : String} (h : blank s = false) : (fold s).toList ≠ [] := by
  intro hnil
  have hempty : s = "" := fold_eq_empty_iff.mp (String.toList_eq_nil_iff.mp hnil)
  subst hempty
  cases h

end PipelineShell.Text
