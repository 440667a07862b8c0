import PipelineShell.Proofs.Copying.Writers
import PipelineShell.Proofs.Openings

/-! One place in the tree while files are opened and written to. What goes on at other places leaves
it alone, and a file that is open at its end gets more bytes behind those that are there. -/

namespace PipelineShell

open Attempt FileTree

namespace FileTree

variable {place l : Location} {t u v : FileTree} {dir : Location} {path : String} {append : Bool}

/-- What is at the place is as it was, unless there was nothing and a directory was made. -/
def Spared (place : Location) (t u : FileTree) : Prop :=
  u.get? place = t.get? place ∨ t.get? place = none ∧ u.get? place = some .directory

instance : IsPreorder FileTree (Spared place) where
  refl _ := .inl rfl
  trans t u v h h' := by
    rcases h with h | ⟨hfree, hmade⟩
    · rcases h' with h' | ⟨hfree, hmade⟩
      · exact .inl (h'.trans h)
      · exact .inr ⟨h ▸ hfree, hmade⟩
    · rcases h' with h' | ⟨hfree', -⟩
      · exact .inr ⟨hfree, h'.trans hmade⟩
      · rw [hmade] at hfree'
        cases hfree'

/-- There is no link at the place and no device. -/
def Regular (place : Location) (t : FileTree) : Prop :=
  ∀ e, t.get? place = some e → e.IsFile ∨ e = .directory

theorem Spared.regular (h : Spared place t u) (ht : Regular place t) : Regular place u := by
  intro e he
  rcases h with h | ⟨-, hmade⟩
  · exact ht e (h ▸ he)
  · exact .inr (Option.some.inj (he.symm.trans hmade))

theorem Spared.content (h : Spared place t u) : u.content place = t.content place := by
  rcases h with h | ⟨hfree, hmade⟩
  · rw [FileTree.content, FileTree.content, h]
  · rw [FileTree.content, FileTree.content, hfree, hmade]

theorem spared_put_of_ne (h : l ≠ place) (t : FileTree) (e : Entry) :
    Spared place t (t.put l e) :=
  .inl (by rw [get?_put, if_neg fun hl => h hl.2.symm])

theorem get?_revise_of_ne (h : l ≠ place) (t : FileTree) (change : ByteArray → ByteArray) :
    (t.revise l change).get? place = t.get? place := by
  rw [get?_revise, if_neg fun hl => h hl.symm]

theorem spared_makeDirectory (place dir : Location) (path : String) :
    Attempt.Keeps (Spared place) (makeDirectory dir path) := by
  unfold makeDirectory
  cases isPath path with
  | false => exact Attempt.keeps_throw _
  | true =>
    refine Attempt.keeps_get fun t => ?_
    cases hfind : t.findSteps dir path .itself ((Path.steps path).filter (!·.isEmpty)) with
    | error r => exact Attempt.keeps_throw _ t
    | ok found =>
      cases found with
      | entry l e => exact Attempt.keeps_throw _ t
      | missing parent name =>
        by_cases hl : parent ++ [name] = place
        · subst hl
          have hmade : (t.put (parent ++ [name]) .directory).get? (parent ++ [name]) =
              some .directory := by
            rw [get?_put, if_pos ⟨by simp, rfl⟩]
          exact .inr ⟨fits_findSteps hfind, hmade⟩
        · exact spared_put_of_ne hl t .directory

theorem exists_spared_of_openTarget (place : Location) {place' : Location}
    (h : openTarget dir path append t = .ok place' u) :
    ∃ t', Spared place t t' ∧ openFile dir path append t' = .ok place' u := by
  rw [openTarget_eq] at h
  obtain ⟨_, t', hmade, hfile⟩ := Attempt.bind_eq_ok.mp h
  refine ⟨t', ?_, hfile⟩
  split at hmade
  · exact (keeps_makeDirectories (spared_makeDirectory place dir) _).ok hmade
  · cases hmade
    exact refl_of (Spared place) t

theorem spared_of_openTarget_of_ne {place' : Location}
    (h : openTarget dir path append t = .ok place' u) (hne : place' ≠ place) :
    Spared place t u := by
  obtain ⟨t', hmade, hfile⟩ := exists_spared_of_openTarget place h
  refine trans_of (Spared place) hmade ?_
  rcases openFile_eq_ok hfile with ⟨e, -, -, rfl⟩ | ⟨parent, name, -, rfl, rfl⟩
  · cases append with
    | true => exact refl_of (Spared place) t'
    | false => exact .inl (get?_revise_of_ne hne t' _)
  · exact spared_put_of_ne hne t' _

theorem get?_of_openTarget (h : openTarget dir path append t = .ok place u)
    (ht : Regular place t) : ∃ x,
      u.get? place = some (.file (if append then t.content place else .empty) x) := by
  obtain ⟨t', hmade, hfile⟩ := exists_spared_of_openTarget place h
  have hisFile : ∃ bytes x, u.get? place = some (.file bytes x) := by
    rcases openFile_eq_ok hfile with ⟨e, hfind, hne, rfl⟩ | ⟨parent, name, -, rfl, rfl⟩
    · have hthere := (fits_find hfind).resolve_left hne
      obtain ⟨bytes, x, rfl⟩ := (hmade.regular ht e hthere).resolve_right hne
      cases append with
      | true => exact ⟨bytes, x, hthere⟩
      | false => exact ⟨.empty, x, by simp [get?_revise, hthere, Entry.rewrite]⟩
    · exact ⟨.empty, false, by rw [get?_put, if_pos ⟨by simp, rfl⟩]⟩
  obtain ⟨bytes, x, hget⟩ := hisFile
  have hcontent := content_of_openTarget h
  rw [content, hget] at hcontent
  exact ⟨x, by rw [hget, ← hcontent]⟩

end FileTree

section

variable {dir place : Location} {d : Destination} {t u : FileTree}

theorem Destination.openIn_eq_some (h : d.openIn dir t = .ok (some place) u) :
    ∃ path, d.target = some path ∧ openTarget dir path d.append t = .ok place u := by
  unfold openIn at h
  cases hd : d.target with
  | none =>
    rw [hd] at h
    cases h
  | some path =>
    rw [hd] at h
    obtain ⟨_, _, hopen, hsome⟩ := bind_eq_ok.mp h
    cases hsome
    exact ⟨path, rfl, hopen⟩

theorem Destination.openIn_eq_none (h : d.openIn dir t = .ok none u) :
    d.target = none ∧ u = t := by
  unfold openIn at h
  cases hd : d.target with
  | none =>
    rw [hd] at h
    cases h
    exact ⟨rfl, rfl⟩
  | some path =>
    rw [hd] at h
    obtain ⟨_, _, -, hsome⟩ := bind_eq_ok.mp h
    cases hsome

theorem Destination.spared_of_openIn {opened : Option Location} (h : d.openIn dir t = .ok opened u)
    (hne : opened ≠ some place) : Spared place t u := by
  cases opened with
  | none =>
    obtain ⟨-, rfl⟩ := openIn_eq_none h
    exact refl_of (Spared place) u
  | some place' =>
    obtain ⟨path, -, hopen⟩ := openIn_eq_some h
    exact spared_of_openTarget_of_ne hopen fun heq => hne (congrArg some heq)

end

namespace BlockWriter

variable {place : Location} {w : BlockWriter} {t : FileTree} {old : ByteArray} {x : Bool}

/-- The file is where it was, and what is at another place stays. -/
structure Passes (place : Location) (p q : BlockWriter × FileTree) : Prop where
  stays : q.1.place = p.1.place
  entry : p.1.place ≠ place → q.2.get? place = p.2.get? place

instance : IsPreorder (BlockWriter × FileTree) (Passes place) where
  refl _ := ⟨rfl, fun _ => rfl⟩
  trans _ _ _ h h' :=
    ⟨h'.stays.trans h.stays, fun hne => (h'.entry (h.stays ▸ hne)).trans (h.entry hne)⟩

theorem passes_put (bytes : ByteArray) : Keeps (Passes place) (put bytes) := by
  rintro ⟨w, t⟩
  by_cases hroom : w.HasRoom bytes t
  · rw [final_of_ok (put_eq hroom)]
    refine ⟨moved_place w bytes, fun hne => ?_⟩
    dsimp only [released]
    split
    · rfl
    · exact get?_revise_of_ne hne t _
  · obtain ⟨hbytes, hfull⟩ := not_or.mp hroom
    rw [final_of_error (put_of_onFull (Bool.not_eq_true _ ▸ hbytes) (Classical.not_not.mp hfull))]
    exact refl_of (Passes place) (w, t)

theorem carries_passes : Carries (Passes place) where
  hold _ := keeps_modify fun _ => ⟨rfl, fun _ => rfl⟩
  put := passes_put

/-- A file that stands at its end. -/
def AtEnd (w : BlockWriter) (old : ByteArray) : Prop :=
  w.append = false → w.offset = old.size

theorem AtEnd.moved (h : w.AtEnd old) (bytes : ByteArray) :
    (w.moved bytes).AtEnd (old ++ bytes) := by
  intro happend
  cases hw : w.append with
  | true => simp [BlockWriter.moved, hw] at happend
  | false => simp [BlockWriter.moved, hw, h hw, ByteArray.size_append]

theorem AtEnd.get?_released (h : w.AtEnd old) (hthere : t.get? w.place = some (.file old x))
    (bytes : ByteArray) :
    (w.released bytes t).get? w.place = some (.file (old ++ bytes) x) := by
  unfold released
  cases hb : bytes.isEmpty with
  | true => rw [if_pos rfl, eq_empty_of_isEmpty hb, ByteArray.append_empty, hthere]
  | false =>
    have hchange : w.change bytes old = old ++ bytes := by
      cases hw : w.append with
      | true => simp [change, hw]
      | false => simp [change, hw, overlay, h hw]
    rw [if_neg Bool.false_ne_true, get?_revise, if_pos rfl, hthere, Option.map_some, Entry.rewrite,
      hchange]

end BlockWriter

namespace TextWriter

variable {place : Location} {base all more : ByteArray} {p q : TextWriter × FileTree}

/-- The file held some bytes when it was opened at the place, and it has taken more: some are in the
tree behind those, some are held, and some are still gathered. -/
def Extends (place : Location) (base all : ByteArray) (p : TextWriter × FileTree) : Prop :=
  ∃ out x, p.2.get? place = some (.file (base ++ out) x) ∧ p.1.file.place = place ∧
    p.1.file.AtEnd (base ++ out) ∧ all = out ++ p.1.file.held ++ p.1.gathered

theorem extends_start {append : Bool} {t : FileTree} {x : Bool}
    (hthere : t.get? place = some (.file base x)) (hbase : append = false → base = .empty) :
    Extends place base .empty (.start place append, t) := by
  refine ⟨.empty, x, by rwa [ByteArray.append_empty], rfl, fun happend => ?_, rfl⟩
  rw [hbase happend]
  rfl

theorem Extends.of_entry (h : Extends place base all p) {u : FileTree}
    (hu : u.get? place = p.2.get? place) : Extends place base all (p.1, u) := by
  obtain ⟨out, x, hthere, hrest⟩ := h
  exact ⟨out, x, hu.trans hthere, hrest⟩

def emptied (w : TextWriter) : BlockWriter :=
  { w.file with held := .empty }

theorem taken_emptied (w : TextWriter) (t : FileTree) :
    Taken w.emptied t (w.file.held ++ w.gathered) (w, t) := by
  refine ⟨w.file.held, ⟨.empty, ?_, rfl, ByteArray.empty_append.symm⟩, rfl⟩
  rw [BlockWriter.moved_of_isEmpty _ rfl]
  rfl

namespace Extends

variable (h : Extends place base all p)

include h

theorem not_onFull : ¬p.1.emptied.OnFull p.2 := by
  obtain ⟨out, x, hthere, hplace, -⟩ := h
  intro hfull
  have hentry : p.2.get? p.1.file.place = some (.device .full) := hfull
  rw [hplace, hthere] at hentry
  cases hentry

/-- What the file takes from now on, it takes behind what it has taken. -/
theorem of_taken (htaken : Taken p.1.emptied p.2 (p.1.file.held ++ p.1.gathered ++ more) q) :
    Extends place base (all ++ more) q := by
  obtain ⟨out, x, hthere, rfl, hend, rfl⟩ := h
  obtain ⟨below, ⟨done, hfile, htree, rfl⟩, hall⟩ := htaken
  have hreleased := hend.get?_released hthere done
  have hemptied : p.1.emptied.AtEnd (base ++ out) := hend
  have hmoved := hemptied.moved done
  have hplace : (p.1.emptied.moved done).place = p.1.file.place := BlockWriter.moved_place _ _
  refine ⟨out ++ done, x, ?_, ?_, ?_, ?_⟩
  · rw [show q.2 = _ from htree, ← ByteArray.append_assoc]
    exact hreleased
  · rw [show q.1.file = _ from hfile]
    exact hplace
  · rw [show q.1.file = _ from hfile, ← ByteArray.append_assoc]
    exact hmoved
  · simp only [ByteArray.append_assoc] at hall ⊢
    rw [hall]

theorem write (text : String) : ∃ q, TextWriter.write text p = .ok () q ∧
    Extends place base (all ++ Text.encode text) q := by
  obtain ⟨q, hq, htaken⟩ := taken_write h.not_onFull (taken_emptied p.1 p.2) text
  exact ⟨q, hq, h.of_taken htaken⟩

theorem flush : ∃ q, TextWriter.flush p = .ok () q ∧ Extends place base all q := by
  obtain ⟨q, hq, hbelow, hgathered⟩ := taken_flush h.not_onFull (taken_emptied p.1 p.2)
  have htaken : Taken p.1.emptied p.2 (p.1.file.held ++ p.1.gathered ++ .empty) q :=
    ⟨_, hbelow, by rw [hgathered]⟩
  refine ⟨q, hq, ?_⟩
  have hq' := h.of_taken htaken
  rwa [ByteArray.append_empty] at hq'

theorem close : ∃ w u x, TextWriter.close p = .ok () (w, u) ∧
    u.get? place = some (.file (base ++ all) x) := by
  obtain ⟨w, hclose⟩ := taken_close h.not_onFull (taken_emptied p.1 p.2)
  obtain ⟨out, x, hthere, rfl, hend, rfl⟩ := h
  have hreleased := hend.get?_released hthere (p.1.file.held ++ p.1.gathered)
  refine ⟨w, _, x, hclose, ?_⟩
  simp only [← ByteArray.append_assoc] at hreleased ⊢
  exact hreleased

end Extends

end TextWriter

end PipelineShell
