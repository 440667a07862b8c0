import PipelineShell.Proofs.Lexing.RoundTrip

/-! Cutting a line at its bars and joining the segments again. A text that leaves the scan where it
began can stand before any bar, so that the segments of a line are known from those of its parts. -/

namespace PipelineShell

/-- The scan ends outside quotation, and no backslash waits. -/
def Closed (s : String) : Prop :=
  ScanMode.plain.run s.toList = .plain

instance : DecidablePred Closed := fun s =>
  inferInstanceAs (Decidable (ScanMode.plain.run s.toList = .plain))

theorem joined_cons_cons (sep s t : String) (l : List String) :
    Text.joined sep (s :: t :: l) = s ++ sep ++ Text.joined sep (t :: l) := by
  apply String.toList_injective
  simp [toList_joined]

/-- A segment is the whole text if and only if nothing in it cuts. -/
theorem segmentsFrom_eq_singleton_iff (m : ScanMode) (done cs : List Char) :
    segmentsFrom m done cs = [done.reverse ++ cs] ↔ m.uncut cs = true := by
  induction cs generalizing m done with
  | nil => simp [segmentsFrom]
  | cons c cs ih =>
    rw [segmentsFrom]
    by_cases hc : m.cuts c = true
    · simp [hc, segmentsFrom_ne_nil]
    · have hh := ih (m.step c) (c :: done)
      rw [List.reverse_cons, List.append_assoc, List.singleton_append] at hh
      simp [hc, hh]

/-- Behind characters that leave the scan in plain mode, a bar ends what was begun, and the rest is
cut on its own. -/
theorem segmentsFrom_append_bar {m : ScanMode} {cs : List Char} (h : m.run cs = .plain)
    (done ds : List Char) : segmentsFrom m done (cs ++ '|' :: ds) =
      segmentsFrom m done cs ++ segmentsFrom .plain [] ds := by
  induction cs generalizing m done with
  | nil =>
    obtain rfl : m = .plain := h
    rfl
  | cons c cs ih =>
    rw [List.cons_append, segmentsFrom, segmentsFrom]
    by_cases hc : m.cuts c = true
    · have hplain : m = .plain ∧ c = '|' := by simpa [ScanMode.cuts] using hc
      obtain ⟨rfl, rfl⟩ := hplain
      rw [if_pos hc, if_pos hc, ih (m := .plain) h, List.cons_append]
    · rw [if_neg hc, if_neg hc, ih h]

/-- What is said of the segments holds from the middle of a segment on, the mode being the one that
the begun segment leaves. -/
theorem segmentsFrom_sound (m : ScanMode) (done cs : List Char)
    (hrun : ScanMode.plain.run done.reverse = m)
    (huncut : ScanMode.plain.uncut done.reverse = true) :
    Text.joined "|" ((segmentsFrom m done cs).map String.ofList) =
        String.ofList (done.reverse ++ cs) ∧
      (∀ s ∈ segmentsFrom m done cs, ScanMode.plain.uncut s = true) ∧
      ∀ s ∈ (segmentsFrom m done cs).dropLast, ScanMode.plain.run s = .plain := by
  induction cs generalizing m done with
  | nil => simpa [segmentsFrom, Text.joined] using huncut
  | cons c cs ih =>
    rw [segmentsFrom]
    by_cases hc : m.cuts c = true
    · have hplain : m = .plain ∧ c = '|' := by simpa [ScanMode.cuts] using hc
      obtain ⟨rfl, rfl⟩ := hplain
      obtain ⟨hjoined, huncuts, hruns⟩ := ih .plain [] rfl rfl
      rw [if_pos hc, List.dropLast_cons_of_ne_nil (segmentsFrom_ne_nil _ _ _)]
      refine ⟨?_, List.forall_mem_cons.mpr ⟨huncut, huncuts⟩,
        List.forall_mem_cons.mpr ⟨hrun, hruns⟩⟩
      obtain ⟨s, l, hsl⟩ := List.exists_cons_of_ne_nil (segmentsFrom_ne_nil .plain [] cs)
      rw [hsl, List.map_cons] at hjoined
      rw [hsl, List.map_cons, List.map_cons, joined_cons_cons, hjoined]
      apply String.toList_injective
      simp
    · have hstep := ih (m.step c) (c :: done) (by simp [hrun])
        (by simpa [huncut, hrun] using hc)
      rw [List.reverse_cons, List.append_assoc, List.singleton_append] at hstep
      rwa [if_neg hc]

theorem segments_eq_singleton_iff (s : String) :
    segments s = [s] ↔ ScanMode.plain.uncut s.toList = true := by
  rw [← segmentsFrom_eq_singleton_iff .plain [], segments, List.map_eq_singleton_iff]
  constructor
  · rintro ⟨cs, hcs, rfl⟩
    simpa using hcs
  · intro h
    exact ⟨s.toList, h, String.ofList_toList⟩

theorem segments_append_bar {a : String} (h : Closed a) (b : String) :
    segments (a ++ "|" ++ b) = segments a ++ segments b := by
  have hlist : (a ++ "|" ++ b).toList = a.toList ++ '|' :: b.toList := by simp
  rw [segments, hlist, segmentsFrom_append_bar h, List.map_append]
  rfl

theorem segments_joined {l : List String} (hne : l ≠ []) (hsingle : ∀ s ∈ l, segments s = [s])
    (hclosed : ∀ s ∈ l.dropLast, Closed s) : segments (Text.joined "|" l) = l := by
  induction l with
  | nil => exact absurd rfl hne
  | cons s l ih =>
    cases l with
    | nil => exact hsingle s (by simp)
    | cons t l =>
      obtain ⟨hs, hl⟩ := List.forall_mem_cons.mp hsingle
      obtain ⟨hs', hl'⟩ := List.forall_mem_cons.mp hclosed
      rw [joined_cons_cons, segments_append_bar hs', hs, ih (by simp) hl hl', List.singleton_append]

theorem segments_sound (line : String) : Text.joined "|" (segments line) = line ∧
    (∀ s ∈ segments line, segments s = [s]) ∧ ∀ s ∈ (segments line).dropLast, Closed s := by
  obtain ⟨hjoined, huncut, hrun⟩ :=
    segmentsFrom_sound .plain [] line.toList rfl rfl
  refine ⟨by simpa [segments] using hjoined, fun s hs => ?_, fun s hs => ?_⟩
  · obtain ⟨cs, hcs, rfl⟩ := List.mem_map.mp hs
    exact (segments_eq_singleton_iff _).mpr (by simpa using huncut cs hcs)
  · rw [segments, ← List.map_dropLast] at hs
    obtain ⟨cs, hcs, rfl⟩ := List.mem_map.mp hs
    simpa [Closed] using hrun cs hcs

/-- Cutting a line loses nothing, and cuts are where they can be: joining the segments gives the
line back, each segment is cut into itself alone, and all but the last are closed. Lists of texts
with these two properties are the only ones that come back when they are joined and cut. So the
stages of two lines with a bar between them are those of the one and those of the other, if the
first is closed. -/
theorem segments_lossless :
    (∀ line, Text.joined "|" (segments line) = line ∧ (∀ s ∈ segments line, segments s = [s]) ∧
      ∀ s ∈ (segments line).dropLast, Closed s) ∧
    (∀ l, l ≠ [] → (segments (Text.joined "|" l) = l ↔
      (∀ s ∈ l, segments s = [s]) ∧ ∀ s ∈ l.dropLast, Closed s)) ∧
    ∀ a b, Closed a → (Pipeline.parse (a ++ "|" ++ b)).stages =
      (Pipeline.parse a).stages ++ (Pipeline.parse b).stages := by
  refine ⟨segments_sound, fun l hne => ⟨fun h => ?_, fun h => segments_joined hne h.1 h.2⟩,
    fun a b h => ?_⟩
  · have hsound := segments_sound (Text.joined "|" l)
    rw [h] at hsound
    exact hsound.2
  · have hlist : (a ++ "|" ++ b).toList = a.toList ++ '|' :: b.toList := by simp
    simp only [Pipeline.stages_parse, hlist, segmentsFrom_append_bar h, List.map_append]

end PipelineShell
