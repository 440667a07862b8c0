import PipelineShell.Proofs.Trees
import PipelineShell.Proofs.Writers.Steps

/-! When open files fail. Only the full device has no room, and it is noticed only when bytes are
let out: until then they are held, and the failure is still to come. -/

namespace PipelineShell

def Stays {ω : Type} (place : ω → Location) (p q : ω × FileTree) : Prop :=
  place q.1 = place p.1 ∧
    ∀ l d, q.2.get? l = some (.device d) ↔ p.2.get? l = some (.device d)

instance {ω : Type} (place : ω → Location) : IsPreorder (ω × FileTree) (Stays place) where
  refl _ := ⟨rfl, fun _ _ => Iff.rfl⟩
  trans _ _ _ h h' := ⟨h'.1.trans h.1, fun l d => (h'.2 l d).trans (h.2 l d)⟩

theorem Stays.noNewDevice {ω : Type} {place : ω → Location} {p q : ω × FileTree}
    (h : Stays place p q) : FileTree.NoNewDevice p.2 q.2 :=
  fun l d => (h.2 l d).mp

theorem isEmpty_append {a b : ByteArray} (h : b.isEmpty = false) : (a ++ b).isEmpty = false := by
  simp only [ByteArray.isEmpty, ByteArray.size_append, beq_eq_false_iff_ne] at h ⊢
  omega

/-- The one way in which an open file fails. -/
def NoRoom (f : Fault) : Prop :=
  f = .refused .noSpace

namespace BlockWriter

variable {w : BlockWriter} {t : FileTree} {bytes : ByteArray}

/-- The file is the full device. -/
def OnFull (w : BlockWriter) (t : FileTree) : Prop :=
  t.get? w.place = some (.device .full)

/-- The file holds bytes for which there is no room. -/
def Owes (w : BlockWriter) (t : FileTree) : Prop :=
  w.OnFull t ∧ w.held.isEmpty = false

theorem put_of_isEmpty (h : bytes.isEmpty = true) : put bytes (w, t) = .ok () (w, t) := by
  simp [put, Attempt.bind_apply, h]

theorem put_of_onFull (h : bytes.isEmpty = false) (hf : w.OnFull t) :
    put bytes (w, t) = .error (.refused .noSpace) (w, t) := by
  have hf' : t.get? w.place = some (.device .full) := hf
  simp [put, Attempt.bind_apply, h, hf']

theorem put_of_not_onFull (hf : ¬w.OnFull t) (bytes : ByteArray) : ∃ w' t',
    put bytes (w, t) = .ok () (w', t') ∧ w'.held = w.held ∧ Stays place (w, t) (w', t') := by
  have hf' : ¬t.get? w.place = some (.device .full) := hf
  cases h : bytes.isEmpty with
  | true => exact ⟨w, t, put_of_isEmpty h, rfl, refl_of _ _⟩
  | false =>
    cases ha : w.append with
    | true =>
      refine ⟨w, t.revise w.place (· ++ bytes), ?_, rfl, rfl, fun l d => ?_⟩
      · simp [put, Attempt.bind_apply, h, hf', ha]
      · exact FileTree.get?_revise_device t _ l _ d
    | false =>
      refine ⟨{ w with offset := w.offset + bytes.size },
        t.revise w.place fun old => overlay old w.offset bytes, ?_, rfl, rfl, fun l d => ?_⟩
      · simp [put, Attempt.bind_apply, h, hf', ha]
      · exact FileTree.get?_revise_device t _ l _ d

theorem put_fails_iff : Attempt.Fails NoRoom (put bytes) (w, t) ↔
    w.OnFull t ∧ bytes.isEmpty = false := by
  cases h : bytes.isEmpty with
  | true => simpa using Attempt.not_fails_of_ok (put_of_isEmpty h)
  | false =>
    by_cases hf : w.OnFull t
    · simpa [hf] using ⟨_, _, put_of_onFull h hf, rfl⟩
    · obtain ⟨w', t', hok, _⟩ := put_of_not_onFull hf bytes
      simpa [hf] using Attempt.not_fails_of_ok hok

theorem throws_put (bytes : ByteArray) : Attempt.Throws NoRoom (put bytes) := by
  rintro ⟨w, t⟩ e u h
  by_cases hf : w.OnFull t
  · cases hb : bytes.isEmpty with
    | true => rw [put_of_isEmpty hb] at h; cases h
    | false => rw [put_of_onFull hb hf] at h; cases h; rfl
  · obtain ⟨w', t', hok, _⟩ := put_of_not_onFull hf bytes
    rw [hok] at h
    cases h

theorem keeps_put (bytes : ByteArray) : Attempt.Keeps (Stays place) (put bytes) := by
  rintro ⟨w, t⟩
  by_cases hf : w.OnFull t
  · cases hb : bytes.isEmpty with
    | true =>
      rw [Attempt.final_of_ok (put_of_isEmpty hb)]
      exact refl_of _ _
    | false =>
      rw [Attempt.final_of_error (put_of_onFull hb hf)]
      exact refl_of _ _
  · obtain ⟨w', t', hok, _, hs⟩ := put_of_not_onFull hf bytes
    exact Attempt.final_of_ok hok ▸ hs

theorem flush_of_not_owes (h : ¬w.Owes t) : ∃ w' t', flush (w, t) = .ok () (w', t') ∧
    w'.held.isEmpty = true ∧ Stays place (w, t) (w', t') := by
  have hput : ∃ w' t', put w.held (w, t) = .ok () (w', t') ∧ Stays place (w, t) (w', t') := by
    by_cases hf : w.OnFull t
    · have hheld : w.held.isEmpty = true := by simpa [Owes, hf] using h
      exact ⟨w, t, put_of_isEmpty hheld, refl_of _ _⟩
    · obtain ⟨w', t', hok, _, hs⟩ := put_of_not_onFull hf w.held
      exact ⟨w', t', hok, hs⟩
  obtain ⟨w', t', hok, hs⟩ := hput
  exact ⟨{ w' with held := .empty }, t', Attempt.bind_of_ok hok _, rfl, hs⟩

theorem held_of_flush {p : BlockWriter × FileTree} (h : flush (w, t) = .ok () p) :
    p.1.held.isEmpty = true := by
  obtain ⟨_, _, _, hhold⟩ := Attempt.bind_eq_ok.mp
    (show (put w.held >>= fun _ => hold .empty) (w, t) = .ok () p from h)
  cases hhold
  rfl

theorem flush_fails_iff : Attempt.Fails NoRoom flush (w, t) ↔ w.Owes t := by
  by_cases ho : w.Owes t
  · have hfail : Attempt.Fails NoRoom flush (w, t) :=
      ⟨_, _, Attempt.bind_of_error (put_of_onFull ho.2 ho.1) _, rfl⟩
    exact ⟨fun _ => ho, fun _ => hfail⟩
  · obtain ⟨w', t', hok, _⟩ := flush_of_not_owes ho
    exact ⟨fun h => (Attempt.not_fails_of_ok hok h).elim, fun h => (ho h).elim⟩

theorem throws_flush : Attempt.Throws NoRoom flush :=
  Attempt.throws_get.bind fun _ => (throws_put _).bind fun _ => Attempt.throws_modify _

theorem carries_stays : Carries (Stays place) where
  hold _ := Attempt.keeps_modify fun _ => refl_of (Stays place) _
  put := keeps_put

theorem keeps_flush : Attempt.Keeps (Stays place) flush :=
  carries_stays.flush

theorem throws_write (bytes : ByteArray) : Attempt.Throws NoRoom (write bytes) := by
  refine Attempt.throws_get.bind fun s => ?_
  dsimp only
  split
  · exact Attempt.throws_modify _
  · refine throws_flush.bind fun _ => ?_
    split
    · exact throws_put _
    · exact Attempt.throws_modify _

theorem keeps_write (bytes : ByteArray) : Attempt.Keeps (Stays place) (write bytes) :=
  carries_stays.write bytes

theorem onFull_of_stays {w' : BlockWriter} {t' : FileTree} (h : Stays place (w, t) (w', t')) :
    w'.OnFull t' ↔ w.OnFull t := by
  have hp : w'.place = w.place := h.1
  unfold OnFull
  rw [hp]
  exact h.2 w.place .full

theorem not_fails_write (hf : ¬w.OnFull t) : ¬Attempt.Fails NoRoom (write bytes) (w, t) := by
  unfold write
  rw [Attempt.fails_bind]
  rintro (⟨_, _, h, _⟩ | ⟨_, _, h, hrest⟩)
  · cases h
  · cases h
    dsimp only at hrest
    split at hrest
    · exact Attempt.not_fails_of_ok rfl hrest
    · rcases Attempt.fails_bind.mp hrest with h | ⟨_, p, hp, h⟩
      · exact hf (flush_fails_iff.mp h).1
      · have hs := keeps_flush.ok hp
        split at h
        · exact hf ((onFull_of_stays hs).mp (put_fails_iff.mp h).1)
        · exact Attempt.not_fails_of_ok rfl h

theorem write_fails_of_blockSize (hf : w.OnFull t) (h : t.blockSize < bytes.size) :
    Attempt.Fails NoRoom (write bytes) (w, t) := by
  have hfit : ¬(w.held.size + bytes.size ≤ t.blockSize ∧ bytes.size < t.blockSize) := by omega
  have hempty : bytes.isEmpty = false := by
    simp only [ByteArray.isEmpty, beq_eq_false_iff_ne]
    omega
  by_cases ho : w.Owes t
  · obtain ⟨e, p, hp, he⟩ := flush_fails_iff.mpr ho
    refine ⟨e, p, ?_, he⟩
    simp only [write, Attempt.bind_apply, Attempt.get_apply, if_neg hfit, hp]
  · obtain ⟨w', t', hok, _, hs⟩ := flush_of_not_owes ho
    refine ⟨_, (w', t'), ?_, rfl⟩
    simp only [write, Attempt.bind_apply, Attempt.get_apply, if_neg hfit, hok, if_pos h,
      put_of_onFull hempty ((onFull_of_stays hs).mpr hf)]

theorem write_of_onFull (hf : w.OnFull t) (h : bytes.isEmpty = false) :
    Attempt.Fails NoRoom (write bytes) (w, t) ∨
      ∃ w' t', write bytes (w, t) = .ok () (w', t') ∧ w'.Owes t' := by
  by_cases hbig : t.blockSize < bytes.size
  · exact .inl (write_fails_of_blockSize hf hbig)
  · by_cases hfit : w.held.size + bytes.size ≤ t.blockSize ∧ bytes.size < t.blockSize
    · refine .inr ⟨{ w with held := w.held ++ bytes }, t, ?_, hf, isEmpty_append h⟩
      simp [write, Attempt.bind_apply, hfit, hold]
    · by_cases ho : w.Owes t
      · obtain ⟨e, p, hp, he⟩ := flush_fails_iff.mpr ho
        refine .inl ⟨e, p, ?_, he⟩
        simp only [write, Attempt.bind_apply, Attempt.get_apply, if_neg hfit, hp]
      · obtain ⟨w', t', hok, _, hs⟩ := flush_of_not_owes ho
        refine .inr ⟨{ w' with held := bytes }, t', ?_, (onFull_of_stays hs).mpr hf, h⟩
        simp only [write, Attempt.bind_apply, Attempt.get_apply, if_neg hfit, hok, if_neg hbig]
        rfl

theorem write_start_of_le (place : Location) (append : Bool) (h : bytes.size ≤ t.blockSize) :
    write bytes (.start place append, t) =
      .ok () ({ start place append with held := bytes }, t) := by
  by_cases hless : bytes.size < t.blockSize
  · have hfit : (start place append).held.size + bytes.size ≤ t.blockSize ∧
        bytes.size < t.blockSize := by
      simp only [start, ByteArray.size_empty]
      omega
    simp only [write, Attempt.bind_apply, Attempt.get_apply, if_pos hfit]
    simp [hold, start]
  · have hfit : ¬((start place append).held.size + bytes.size ≤ t.blockSize ∧
        bytes.size < t.blockSize) := fun hfit => hless hfit.2
    have hflush : flush (start place append, t) = .ok () (start place append, t) := rfl
    simp only [write, Attempt.bind_apply, Attempt.get_apply, if_neg hfit, hflush,
      if_neg (Nat.not_lt.mpr h)]
    rfl

theorem write_start_of_lt (place : Location) (append : Bool) (h : t.blockSize < bytes.size) :
    write bytes (.start place append, t) = put bytes (.start place append, t) := by
  have hfit : ¬((start place append).held.size + bytes.size ≤ t.blockSize ∧
      bytes.size < t.blockSize) := by omega
  have hflush : flush (start place append, t) = .ok () (start place append, t) := rfl
  simp only [write, Attempt.bind_apply, Attempt.get_apply, if_neg hfit, hflush, if_pos h]

/-- A file that was just opened takes a block before it lets anything out. -/
theorem write_start_fails_iff {place : Location} {append : Bool} :
    Attempt.Fails NoRoom (write bytes) (start place append, t) ↔
      (start place append).OnFull t ∧ t.blockSize < bytes.size := by
  by_cases hf : (start place append).OnFull t
  · by_cases hbig : t.blockSize < bytes.size
    · simpa [hf, hbig] using write_fails_of_blockSize hf hbig
    · have hok := write_start_of_le place append (Nat.not_lt.mp hbig)
      simpa [hbig] using Attempt.not_fails_of_ok hok
  · simpa [hf] using not_fails_write hf

end BlockWriter

namespace TextWriter

variable {w : TextWriter} {t : FileTree}

def place (w : TextWriter) : Location :=
  w.file.place

def OnFull (w : TextWriter) (t : FileTree) : Prop :=
  w.file.OnFull t

def Owes (w : TextWriter) (t : FileTree) : Prop :=
  w.OnFull t ∧ (w.gathered.isEmpty = false ∨ w.file.held.isEmpty = false)

theorem onFull_of_stays {w' : TextWriter} {t' : FileTree} (h : Stays place (w, t) (w', t')) :
    w'.OnFull t' ↔ w.OnFull t :=
  BlockWriter.onFull_of_stays ⟨h.1, h.2⟩

theorem onFile_apply (step : BlockWriter.Writing Unit) : onFile step (w, t) =
    match step (w.file, t) with
    | .ok a (f, t) => .ok a ({ w with file := f }, t)
    | .error e (f, t) => .error e ({ w with file := f }, t) := by
  unfold onFile Attempt.within
  cases step (w.file, t) <;> rfl

theorem onFile_fails_iff {step : BlockWriter.Writing Unit} :
    Attempt.Fails NoRoom (onFile step) (w, t) ↔ Attempt.Fails NoRoom step (w.file, t) :=
  Attempt.fails_within

theorem throws_onFile {step : BlockWriter.Writing Unit} (h : Attempt.Throws NoRoom step) :
    Attempt.Throws NoRoom (onFile step) :=
  h.within

theorem throws_handDown : Attempt.Throws NoRoom handDown := by
  refine Attempt.throws_get.bind fun s => ?_
  dsimp only
  split
  · exact Attempt.throws_pure _
  · exact (Attempt.throws_modify _).bind fun _ => throws_onFile (BlockWriter.throws_write _)

theorem keeps_handDown : Attempt.Keeps (Stays place) handDown :=
  below_handDown BlockWriter.carries_stays

theorem handDown_of_isEmpty (h : w.gathered.isEmpty = true) :
    handDown (w, t) = .ok () (w, t) := by
  simp [handDown, Attempt.bind_apply, h]

theorem handDown_apply (h : w.gathered.isEmpty = false) : handDown (w, t) =
    onFile (BlockWriter.write w.gathered) ({ w with gathered := .empty }, t) := by
  simp [handDown, Attempt.bind_apply, h, gather]

theorem handDown_fails_iff (h : w.gathered.isEmpty = false) :
    Attempt.Fails NoRoom handDown (w, t) ↔
      Attempt.Fails NoRoom (BlockWriter.write w.gathered) (w.file, t) := by
  unfold Attempt.Fails
  rw [handDown_apply h]
  exact onFile_fails_iff

theorem not_fails_handDown (hf : ¬w.OnFull t) : ¬Attempt.Fails NoRoom handDown (w, t) := by
  cases h : w.gathered.isEmpty with
  | true => exact Attempt.not_fails_of_ok (handDown_of_isEmpty h)
  | false => exact fun hfail => BlockWriter.not_fails_write hf ((handDown_fails_iff h).mp hfail)

theorem gathered_of_handDown {w' : TextWriter} {t' : FileTree}
    (h : handDown (w, t) = .ok () (w', t')) : w'.gathered.isEmpty = true := by
  cases hg : w.gathered.isEmpty with
  | true =>
    rw [handDown_of_isEmpty hg] at h
    cases h
    exact hg
  | false =>
    rw [handDown_apply hg, onFile_apply] at h
    cases hw : BlockWriter.write w.gathered (w.file, t) <;> (simp only [hw] at h; cases h)
    rfl

theorem handDown_of_onFull (hf : w.OnFull t) (h : w.gathered.isEmpty = false) :
    Attempt.Fails NoRoom handDown (w, t) ∨
      ∃ w' t', handDown (w, t) = .ok () (w', t') ∧ w'.file.Owes t' := by
  rcases BlockWriter.write_of_onFull hf h with hfail | ⟨f, t', hok, ho⟩
  · exact .inl ((handDown_fails_iff h).mpr hfail)
  · refine .inr ⟨{ w with file := f, gathered := .empty }, t', ?_, ho⟩
    rw [handDown_apply h, onFile_apply, hok]

theorem throws_flush : Attempt.Throws NoRoom flush :=
  throws_handDown.bind fun _ => throws_onFile BlockWriter.throws_flush

theorem keeps_flush : Attempt.Keeps (Stays place) flush :=
  below_flush BlockWriter.carries_stays

theorem throws_close : Attempt.Throws NoRoom close :=
  throws_flush.ensure (throws_onFile BlockWriter.throws_flush)

theorem keeps_close : Attempt.Keeps (Stays place) close :=
  below_close BlockWriter.carries_stays

theorem empty_of_flush {w' : TextWriter} {t' : FileTree} (h : flush (w, t) = .ok () (w', t')) :
    w'.gathered.isEmpty = true ∧ w'.file.held.isEmpty = true := by
  obtain ⟨_, ⟨w₁, t₁⟩, hdown, hflush⟩ := Attempt.bind_eq_ok.mp h
  rw [onFile_apply] at hflush
  cases hf : BlockWriter.flush (w₁.file, t₁) with
  | error e p =>
    rw [hf] at hflush
    cases hflush
  | ok a p =>
    rw [hf] at hflush
    cases hflush
    have hg := gathered_of_handDown hdown
    exact ⟨hg, BlockWriter.held_of_flush hf⟩

theorem flush_fails_iff : Attempt.Fails NoRoom flush (w, t) ↔ w.Owes t := by
  unfold flush
  rw [Attempt.fails_bind]
  constructor
  · rintro (h | ⟨_, ⟨w', t'⟩, hdown, h⟩)
    · refine ⟨Classical.byContradiction fun hf => not_fails_handDown hf h, ?_⟩
      cases hg : w.gathered.isEmpty with
      | true => exact (Attempt.not_fails_of_ok (handDown_of_isEmpty hg) h).elim
      | false => exact .inl rfl
    · have ho := BlockWriter.flush_fails_iff.mp (onFile_fails_iff.mp h)
      refine ⟨(onFull_of_stays (keeps_handDown.ok hdown)).mp ho.1, ?_⟩
      cases hg : w.gathered.isEmpty with
      | true =>
        rw [handDown_of_isEmpty hg] at hdown
        cases hdown
        exact .inr ho.2
      | false => exact .inl rfl
  · rintro ⟨hf, ho⟩
    cases hg : w.gathered.isEmpty with
    | true =>
      refine .inr ⟨_, _, handDown_of_isEmpty hg, ?_⟩
      exact onFile_fails_iff.mpr (BlockWriter.flush_fails_iff.mpr ⟨hf, by simpa [hg] using ho⟩)
    | false =>
      rcases handDown_of_onFull hf hg with hfail | ⟨w', t', hok, ho'⟩
      · exact .inl hfail
      · exact .inr ⟨_, _, hok, onFile_fails_iff.mpr (BlockWriter.flush_fails_iff.mpr ho')⟩

theorem close_fails_iff : Attempt.Fails NoRoom close (w, t) ↔ w.Owes t := by
  unfold close
  rw [Attempt.fails_ensure (throws_onFile BlockWriter.throws_flush), flush_fails_iff]
  refine ⟨fun h => ?_, .inl⟩
  rcases h with h | h
  · exact h
  · cases hflush : flush (w, t) with
    | ok a p =>
      rw [Attempt.final_of_ok hflush] at h
      have ho := BlockWriter.flush_fails_iff.mp (onFile_fails_iff.mp h)
      exact (Bool.false_ne_true (ho.2.symm.trans (empty_of_flush hflush).2)).elim
    | error e p => exact flush_fails_iff.mp ⟨e, p, hflush, throws_flush _ _ _ hflush⟩

theorem throws_handDownIf (b : Bool) : Attempt.Throws NoRoom (handDownIf b) := by
  cases b with
  | true => exact throws_handDown
  | false => exact Attempt.throws_pure _

theorem keeps_handDownIf (b : Bool) : Attempt.Keeps (Stays place) (handDownIf b) :=
  below_handDownIf BlockWriter.carries_stays b

theorem not_fails_handDownIf (b : Bool) (hf : ¬w.OnFull t) :
    ¬Attempt.Fails NoRoom (handDownIf b) (w, t) := by
  cases b with
  | true => exact not_fails_handDown hf
  | false => exact Attempt.not_fails_of_ok rfl

theorem throws_join (bytes : ByteArray) : Attempt.Throws NoRoom (join bytes) :=
  Attempt.throws_get.bind fun _ => (Attempt.throws_modify _).bind fun _ => throws_handDownIf _

theorem throws_write (text : String) : Attempt.Throws NoRoom (write text) := by
  rw [write_eq]
  exact Attempt.throws_get.bind fun _ => (throws_handDownIf _).bind fun _ => throws_join _

theorem keeps_write (text : String) : Attempt.Keeps (Stays place) (write text) :=
  below_write BlockWriter.carries_stays text

theorem not_fails_join {bytes : ByteArray} (hf : ¬w.OnFull t) :
    ¬Attempt.Fails NoRoom (join bytes) (w, t) :=
  not_fails_handDownIf _ (show ¬OnFull { w with gathered := w.gathered ++ bytes } t from hf)

theorem not_fails_write {text : String} (hf : ¬w.OnFull t) :
    ¬Attempt.Fails NoRoom (write text) (w, t) := by
  rw [write_eq, Attempt.fails_bind]
  rintro (⟨_, _, h, _⟩ | ⟨_, _, h, hrest⟩)
  · cases h
  · cases h
    rcases Attempt.fails_bind.mp hrest with h | ⟨_, p, hdown, h⟩
    · exact not_fails_handDownIf _ hf h
    · have hf' := fun hp => hf ((onFull_of_stays ((keeps_handDownIf _).ok hdown)).mp hp)
      exact not_fails_join hf' h

theorem join_of_onFull {bytes : ByteArray} (hf : w.OnFull t) (h : bytes.isEmpty = false) :
    Attempt.Fails NoRoom (join bytes) (w, t) ∨
      ∃ w' t', join bytes (w, t) = .ok () (w', t') ∧ w'.Owes t' := by
  by_cases hmuch : gatherSize ≤ (w.gathered ++ bytes).size
  · have hjoin : join bytes (w, t) = handDown ({ w with gathered := w.gathered ++ bytes }, t) := by
      simp [join, handDownIf, Attempt.bind_apply, gather, hmuch, -ByteArray.size_append]
    have hdown := handDown_of_onFull (w := { w with gathered := w.gathered ++ bytes }) hf
      (isEmpty_append h)
    unfold Attempt.Fails at hdown ⊢
    rw [hjoin]
    rcases hdown with hfail | ⟨w', t', hok, ho, hheld⟩
    · exact .inl hfail
    · exact .inr ⟨w', t', hok, ho, .inr hheld⟩
  · refine .inr ⟨{ w with gathered := w.gathered ++ bytes }, t, ?_, hf,
      .inl (isEmpty_append h)⟩
    simp [join, handDownIf, Attempt.bind_apply, gather, hmuch,
      -ByteArray.size_append]

theorem write_of_onFull {text : String} (hf : w.OnFull t)
    (h : (Text.encode text).isEmpty = false) : Attempt.Fails NoRoom (write text) (w, t) ∨
      ∃ w' t', write text (w, t) = .ok () (w', t') ∧ w'.Owes t' := by
  have hwrite : write text (w, t) =
      (handDownIf (gatherSize < w.gathered.size + (Text.encode text).size) >>= fun _ =>
        join (Text.encode text)) (w, t) := by
    rw [write_eq]
    rfl
  unfold Attempt.Fails
  rw [hwrite]
  cases hdown : handDownIf (gatherSize < w.gathered.size + (Text.encode text).size) (w, t) with
  | error e p =>
    exact .inl ⟨e, p, Attempt.bind_of_error hdown _, throws_handDownIf _ _ _ _ hdown⟩
  | ok a p =>
    rw [Attempt.bind_of_ok hdown]
    exact join_of_onFull ((onFull_of_stays ((keeps_handDownIf _).ok hdown)).mpr hf) h

end TextWriter

end PipelineShell
