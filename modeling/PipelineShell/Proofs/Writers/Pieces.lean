import PipelineShell.Proofs.Lag.Writers

/-! Open files that let out one piece after another. What comes to the file is the same as if the
pieces had been let out as one. -/

namespace PipelineShell

open FileTree

namespace FileTree

theorem putIn_putIn (l : Location) (e e' : Entry) (entries : List (Location × Entry)) :
    putIn l e' (putIn l e entries) = putIn l e' entries := by
  induction entries with
  | nil => simp [putIn]
  | cons p ps ih =>
    by_cases hp : p.1 = l
    · simp [putIn, hp]
    · simp [putIn, hp, ih]

theorem revise_revise (t : FileTree) (l : Location) (f g : ByteArray → ByteArray) :
    (t.revise l f).revise l g = t.revise l fun old => g (f old) := by
  cases he : t.get? l with
  | none => simp [revise, he]
  | some e =>
    cases e with
    | file content executable =>
      have hroot : l ≠ [] := by
        rintro rfl
        cases he
      have hnew : (t.put l (.file (f content) executable)).get? l =
          some (.file (f content) executable) := by
        rw [get?_put, if_pos ⟨hroot, rfl⟩]
      have hput : (t.put l (.file (f content) executable)).put l
          (.file (g (f content)) executable) = t.put l (.file (g (f content)) executable) :=
        congrArg (FileTree.mk · t.blockSize) (putIn_putIn _ _ _ _)
      simp [revise, he, hnew, hput]
    | _ => simp [revise, he]

end FileTree

theorem toList_overlay (old : ByteArray) (offset : Nat) (new : ByteArray) :
    (overlay old offset new).data.toList =
      old.data.toList.take offset ++ List.replicate (offset - old.size) 0 ++ new.data.toList ++
        old.data.toList.drop (offset + new.size) := by
  have hlength : old.data.toList.length = old.size := by simp
  unfold overlay
  split
  · next hend =>
    subst hend
    have htake : old.data.toList.take old.size = old.data.toList :=
      List.take_of_length_le (by omega)
    have hdrop : old.data.toList.drop (old.size + new.size) = [] :=
      List.drop_eq_nil_of_le (by omega)
    simp only [htake, hdrop]
    simp
  · have hrest : (old.data.toList.drop (offset + new.size)).take
        (old.size - (offset + new.size)) = old.data.toList.drop (offset + new.size) :=
      List.take_of_length_le (by rw [List.length_drop]; omega)
    simp [hrest]

theorem overlay_empty (bytes : ByteArray) : overlay .empty 0 bytes = bytes := by
  rw [overlay, if_pos ByteArray.size_empty.symm, ByteArray.empty_append]

theorem overlay_overlay (old : ByteArray) (offset : Nat) (a b : ByteArray) :
    overlay (overlay old offset a) (offset + a.size) b = overlay old offset (a ++ b) := by
  refine ByteArray.ext (Array.toList_inj.mp ?_)
  have hsize : (overlay old offset a).size = (overlay old offset a).data.toList.length := by simp
  rw [toList_overlay, hsize, toList_overlay, toList_overlay]
  generalize hbefore : old.data.toList.take offset ++ List.replicate (offset - old.size) 0 = before
  have hlength : before.length = offset := by
    rw [← hbefore]
    simp
    omega
  have ha : a.data.toList.length = a.size := by simp
  have hkept : (before ++ a.data.toList ++ old.data.toList.drop (offset + a.size)).take
      (offset + a.size) = before ++ a.data.toList :=
    List.take_left' (by rw [List.length_append, hlength, ha])
  have hgap : offset + a.size -
      (before ++ a.data.toList ++ old.data.toList.drop (offset + a.size)).length = 0 := by
    rw [List.length_append, List.length_append, hlength, ha]
    omega
  have hrest : (before ++ a.data.toList ++ old.data.toList.drop (offset + a.size)).drop
      (offset + a.size + b.size) = old.data.toList.drop (offset + (a ++ b).size) := by
    rw [← List.drop_drop, List.drop_left' (by rw [List.length_append, hlength, ha]),
      List.drop_drop, ByteArray.size_append, Nat.add_assoc]
  rw [hkept, hgap, hrest]
  simp

theorem isEmpty_append_left {a : ByteArray} (h : a.isEmpty = false) (b : ByteArray) :
    (a ++ b).isEmpty = false := by
  simp only [ByteArray.isEmpty, ByteArray.size_append, beq_eq_false_iff_ne] at h ⊢
  omega

theorem eq_empty_of_isEmpty {a : ByteArray} (h : a.isEmpty = true) : a = .empty :=
  ByteArray.size_eq_zero_iff.mp (by simpa [ByteArray.isEmpty] using h)

namespace BlockWriter

variable {w : BlockWriter} {t : FileTree} {a b : ByteArray}

theorem moved_of_isEmpty (w : BlockWriter) (h : a.isEmpty = true) : w.moved a = w := by
  rw [eq_empty_of_isEmpty h]
  cases w with
  | mk place append offset held => cases append <;> rfl

theorem moved_moved (w : BlockWriter) (a b : ByteArray) :
    (w.moved a).moved b = w.moved (a ++ b) := by
  cases h : w.append <;> simp [moved, h, Nat.add_assoc]

theorem change_change (w : BlockWriter) (a b old : ByteArray) :
    (w.moved a).change b (w.change a old) = w.change (a ++ b) old := by
  cases h : w.append with
  | true => simp [change, moved, h, ByteArray.append_assoc]
  | false => simpa [change, moved, h] using overlay_overlay old w.offset a b

/-- Two pieces that are let out one after the other come to the file as one. -/
theorem released_released (w : BlockWriter) (a b : ByteArray) (t : FileTree) :
    (w.moved a).released b (w.released a t) = w.released (a ++ b) t := by
  cases ha : a.isEmpty with
  | true =>
    have hsame : w.released a t = t := if_pos ha
    rw [moved_of_isEmpty w ha, hsame, eq_empty_of_isEmpty ha, ByteArray.empty_append]
  | false =>
    have hab := isEmpty_append_left ha b
    cases hb : b.isEmpty with
    | true => rw [released, if_pos hb, eq_empty_of_isEmpty hb, ByteArray.append_empty]
    | false =>
      have hchange : (fun old => (w.moved a).change b (w.change a old)) = w.change (a ++ b) :=
        funext fun old => change_change w a b old
      simp only [released, ha, hb, hab, Bool.false_eq_true, if_false, moved_place, revise_revise,
        hchange]

theorem onFull_released : w.OnFull (w.released a t) ↔ w.OnFull t := by
  unfold released
  split
  · rfl
  · exact get?_revise_device t _ _ _ _

theorem get?_released_start {place : Location} {append : Bool} {old : ByteArray} {x : Bool}
    (h : t.get? place = some (.file old x)) (hold : append = false → old = .empty)
    (bytes : ByteArray) :
    ((start place append).released bytes t).get? place = some (.file (old ++ bytes) x) := by
  unfold released
  cases hb : bytes.isEmpty with
  | true => rw [if_pos rfl, eq_empty_of_isEmpty hb, ByteArray.append_empty, h]
  | false =>
    have hplace : (start place append).place = place := rfl
    have hchange : (start place append).change bytes old = old ++ bytes := by
      cases append with
      | true => rfl
      | false =>
        rw [hold rfl, ByteArray.empty_append]
        exact overlay_empty bytes
    rw [if_neg Bool.false_ne_true, hplace, get?_revise, if_pos rfl, h, Option.map_some,
      Entry.rewrite, hchange]

end BlockWriter

end PipelineShell
