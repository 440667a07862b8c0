import PipelineShell.Text.Lines

/-! Line ends that are read as line feeds. A text comes through unchanged just where it has no
carriage return. -/

namespace PipelineShell.Text

theorem not_mem_unifyFrom {cs done : List Char} {afterReturn : Bool} (h : '\r' ∉ done) :
    '\r' ∉ unifyFrom cs afterReturn done := by
  induction cs generalizing afterReturn done with
  | nil => simpa [unifyFrom] using h
  | cons c cs ih =>
    unfold unifyFrom
    split
    · exact ih (by simp [h])
    · next hc =>
      split
      · exact ih h
      · refine ih ?_
        rw [List.mem_cons, not_or]
        exact ⟨fun hr => hc (beq_iff_eq.mpr hr.symm), h⟩

theorem not_mem_unifyLines (s : String) : '\r' ∉ (unifyLines s).toList := by
  unfold unifyLines
  split
  · rw [String.toList_ofList]
    exact not_mem_unifyFrom List.not_mem_nil
  · next h => simpa using h

theorem unifyLines_eq_self_iff {s : String} : unifyLines s = s ↔ '\r' ∉ s.toList := by
  constructor
  · intro h
    exact h ▸ not_mem_unifyLines s
  · intro h
    exact if_neg (by simpa using h)

/-- Texts that are read one after the other come through unchanged just where none of them has a
carriage return. -/
theorem join_unifyLines_eq_iff {texts : List String} :
    String.join (texts.map unifyLines) = String.join texts ↔
      ∀ text ∈ texts, '\r' ∉ text.toList := by
  constructor
  · intro h text htext hmem
    have hread : '\r' ∈ (String.join (texts.map unifyLines)).toList := by
      rw [h, String.toList_join]
      exact List.mem_flatMap.mpr ⟨text, htext, hmem⟩
    rw [String.toList_join] at hread
    obtain ⟨_, hmapped, hr⟩ := List.mem_flatMap.mp hread
    obtain ⟨source, -, rfl⟩ := List.mem_map.mp hmapped
    exact not_mem_unifyLines source hr
  · intro h
    have hsame : texts.map unifyLines = texts.map id :=
      List.map_congr_left fun text htext => unifyLines_eq_self_iff.mpr (h text htext)
    rw [hsame, List.map_id]

end PipelineShell.Text
