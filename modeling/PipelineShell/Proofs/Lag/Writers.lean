import PipelineShell.Proofs.Lag.Trees

/-! Open files in two trees of which one is behind. A file at another place is written alike in
both. What is written to a file that was just opened comes to it all the same, be it gathered before
or not. -/

namespace PipelineShell

open Attempt FileTree

/-- The same open file in both trees, at a place where nothing is still to come. -/
structure Trails {ω : Type} (g : Option Lag) (K : FileTree → Prop) (place : ω → Location)
    (p q : ω × FileTree) : Prop where
  same : q.1 = p.1
  settled : Settled g (place p.1)
  lags : Lags g p.2 q.2
  keeps : K p.2

section

variable {g : Option Lag} {K : FileTree → Prop}
  (hK : ∀ t place change, K t → K (t.revise place change))

namespace BlockWriter

variable {w : BlockWriter} {t : FileTree} {bytes : ByteArray}

/-- What comes of the bytes of the file when others are let out. -/
def change (w : BlockWriter) (bytes : ByteArray) (old : ByteArray) : ByteArray :=
  if w.append then old ++ bytes else overlay old w.offset bytes

def moved (w : BlockWriter) (bytes : ByteArray) : BlockWriter :=
  if w.append then w else { w with offset := w.offset + bytes.size }

def released (w : BlockWriter) (bytes : ByteArray) (t : FileTree) : FileTree :=
  if bytes.isEmpty then t else t.revise w.place (w.change bytes)

/-- Bytes can be let out, or there are none. -/
def HasRoom (w : BlockWriter) (bytes : ByteArray) (t : FileTree) : Prop :=
  bytes.isEmpty = true ∨ ¬w.OnFull t

@[simp] theorem moved_place (w : BlockWriter) (bytes : ByteArray) :
    (w.moved bytes).place = w.place := by
  unfold moved
  split <;> rfl

@[simp] theorem moved_held (w : BlockWriter) (bytes : ByteArray) :
    (w.moved bytes).held = w.held := by
  unfold moved
  split <;> rfl

theorem put_eq (h : w.HasRoom bytes t) :
    put bytes (w, t) = .ok () (w.moved bytes, w.released bytes t) := by
  by_cases hb : bytes.isEmpty = true
  · have hsize : bytes.size = 0 := by simpa [ByteArray.isEmpty] using hb
    simp [put_of_isEmpty hb, moved, released, hb, hsize]
  · have hf : ¬t.get? w.place = some (.device .full) := h.resolve_left hb
    rw [Bool.not_eq_true] at hb
    cases ha : w.append with
    | true =>
      have hchange : w.change bytes = (· ++ bytes) := by
        funext old
        simp [change, ha]
      simp [put, Attempt.bind_apply, hb, hf, ha, moved, released, hchange]
    | false =>
      have hchange : w.change bytes = fun old => overlay old w.offset bytes := by
        funext old
        simp [change, ha]
      simp [put, Attempt.bind_apply, hb, hf, ha, moved, released, hchange]

theorem exists_flush (h : w.HasRoom w.held t) :
    ∃ v, flush (w, t) = .ok () (v, w.released w.held t) ∧ v.held.isEmpty = true :=
  ⟨{ w.moved w.held with held := .empty }, Attempt.bind_of_ok (put_eq h) _, rfl⟩

theorem flush_of_isEmpty (h : w.held.isEmpty = true) :
    ∃ v, flush (w, t) = .ok () (v, t) ∧ v.held.isEmpty = true := by
  have hflush := exists_flush (t := t) (.inl h)
  rwa [released, if_pos h] at hflush

theorem exists_write_flush {place : Location} {append : Bool}
    (h : (start place append).HasRoom bytes t) : ∃ v u v',
      write bytes (start place append, t) = .ok () (v, u) ∧
      flush (v, u) = .ok () (v', (start place append).released bytes t) ∧
      v'.held.isEmpty = true := by
  by_cases hfit : bytes.size ≤ t.blockSize
  · obtain ⟨v', hflush, hempty⟩ := exists_flush
      (w := { start place append with held := bytes }) (t := t) h
    exact ⟨_, _, v', write_start_of_le place append hfit, hflush, hempty⟩
  · have hheld : ((start place append).moved bytes).held.isEmpty = true := by
      rw [moved_held]
      rfl
    obtain ⟨v', hflush, hempty⟩ := flush_of_isEmpty
      (t := (start place append).released bytes t) hheld
    exact ⟨_, _, v', (write_start_of_lt place append (Nat.lt_of_not_le hfit)).trans (put_eq h),
      hflush, hempty⟩

include hK

theorem trails_put (bytes : ByteArray) : Respects (Trails g K place) (put bytes) := by
  rintro ⟨_, t⟩ ⟨w, t'⟩ ⟨rfl, hs, hl, hk⟩
  have hentry : t'.get? w.place = t.get? w.place := hl.get?_of_settled hs
  by_cases hf : w.OnFull t
  · have hf' : w.OnFull t' := hentry.trans hf
    cases hb : bytes.isEmpty with
    | true =>
      rw [put_of_isEmpty hb, put_of_isEmpty hb]
      exact .ok ⟨rfl, hs, hl, hk⟩
    | false =>
      rw [put_of_onFull hb hf, put_of_onFull hb hf']
      exact .error ⟨rfl, hs, hl, hk⟩
  · have hf' : ¬w.OnFull t' := fun h => hf (hentry.symm.trans h)
    rw [put_eq (.inr hf), put_eq (.inr hf')]
    refine .ok ⟨rfl, by rwa [moved_place], ?_, ?_⟩
    · simp only [released]
      split
      · exact hl
      · exact hl.revise hs _
    · simp only [released]
      split
      · exact hk
      · exact hK _ _ _ hk

omit hK in
theorem trails_hold (bytes : ByteArray) : Respects (Trails g K place) (hold bytes) := by
  refine respects_modify ?_
  rintro ⟨_, t⟩ ⟨w, t'⟩ ⟨rfl, hs, hl, hk⟩
  exact ⟨rfl, hs, hl, hk⟩

theorem trails_flush : Respects (Trails g K place) flush := by
  refine respects_get ?_ fun p => (trails_put hK _).bind fun _ => trails_hold _
  rintro ⟨_, t⟩ ⟨w, t'⟩ ⟨rfl, -, -, -⟩
  rfl

theorem trails_write (bytes : ByteArray) : Respects (Trails g K place) (write bytes) := by
  refine respects_get ?_ fun p => ?_
  · rintro ⟨_, t⟩ ⟨w, t'⟩ ⟨rfl, -, hl, -⟩
    have hblocks : t'.blockSize = t.blockSize := hl.blocks
    simp only [hblocks]
  · dsimp only
    split
    · exact trails_hold _
    · refine (trails_flush hK).bind fun _ => ?_
      split
      · exact trails_put hK _
      · exact trails_hold _

end BlockWriter

namespace TextWriter

include hK

omit hK in
theorem trails_onFile {step : BlockWriter.Writing Unit}
    (h : Respects (Trails g K BlockWriter.place) step) :
    Respects (Trails g K place) (onFile step) := by
  refine h.within ?_ ?_
  · rintro ⟨_, t⟩ ⟨w, t'⟩ ⟨rfl, hs, hl, hk⟩
    exact ⟨rfl, hs, hl, hk⟩
  · rintro ⟨_, t⟩ ⟨w, t'⟩ ⟨_, u⟩ ⟨f, u'⟩ ⟨rfl, -, -, -⟩ ⟨rfl, hs, hl, hk⟩
    exact ⟨rfl, hs, hl, hk⟩

omit hK in
theorem trails_gather (bytes : ByteArray) : Respects (Trails g K place) (gather bytes) := by
  refine respects_modify ?_
  rintro ⟨_, t⟩ ⟨w, t'⟩ ⟨rfl, hs, hl, hk⟩
  exact ⟨rfl, hs, hl, hk⟩

theorem trails_handDown : Respects (Trails g K place) handDown := by
  refine respects_get ?_ fun p => ?_
  · rintro ⟨_, t⟩ ⟨w, t'⟩ ⟨rfl, -, -, -⟩
    rfl
  · dsimp only
    split
    · exact respects_pure _
    · exact (trails_gather _).bind fun _ => trails_onFile (BlockWriter.trails_write hK _)

theorem trails_handDownIf (b : Bool) : Respects (Trails g K place) (handDownIf b) := by
  cases b with
  | true => exact trails_handDown hK
  | false => exact respects_pure _

theorem trails_join (bytes : ByteArray) : Respects (Trails g K place) (join bytes) := by
  refine respects_get ?_ fun p => (trails_gather _).bind fun _ => trails_handDownIf hK _
  rintro ⟨_, t⟩ ⟨w, t'⟩ ⟨rfl, -, -, -⟩
  rfl

theorem trails_write (text : String) : Respects (Trails g K place) (write text) := by
  rw [write_eq]
  refine respects_get ?_ fun p => (trails_handDownIf hK _).bind fun _ => trails_join hK _
  rintro ⟨_, t⟩ ⟨w, t'⟩ ⟨rfl, -, -, -⟩
  rfl

theorem trails_flush : Respects (Trails g K place) flush :=
  (trails_handDown hK).bind fun _ => trails_onFile (BlockWriter.trails_flush hK)

theorem trails_close : Respects (Trails g K place) close :=
  (trails_flush hK).ensure (trails_onFile (BlockWriter.trails_flush hK))

end TextWriter

end

namespace TextWriter

variable {place : Location} {append : Bool} {t : FileTree} {text : String}

def Empty (w : TextWriter) : Prop :=
  w.gathered.isEmpty = true ∧ w.file.held.isEmpty = true

theorem flush_of_empty {w : TextWriter} (h : w.Empty) :
    ∃ v, flush (w, t) = .ok () (v, t) ∧ v.Empty := by
  obtain ⟨f, hf, hempty⟩ := BlockWriter.flush_of_isEmpty (t := t) h.2
  refine ⟨{ w with file := f }, ?_, h.1, hempty⟩
  rw [flush, Attempt.bind_of_ok (handDown_of_isEmpty h.1), onFile_apply, hf]

theorem close_of_empty {w : TextWriter} (h : w.Empty) : ∃ v, close (w, t) = .ok () (v, t) := by
  obtain ⟨v, hv, hempty⟩ := flush_of_empty (t := t) h
  obtain ⟨f, hf, -⟩ := BlockWriter.flush_of_isEmpty (t := t) hempty.2
  refine ⟨{ v with file := f }, Attempt.ensure_eq_ok.mpr ⟨_, hv, ?_⟩⟩
  rw [onFile_apply, hf]

theorem write_start (place : Location) (append : Bool) (t : FileTree) (text : String) :
    write text (start place append, t) =
      handDownIf (gatherSize ≤ (Text.encode text).size)
        (⟨.start place append, Text.encode text⟩, t) := by
  have hdown : ∀ b, handDownIf b (start place append, t) = .ok () (start place append, t) := by
    rintro (_ | _) <;> rfl
  rw [write_eq, Attempt.bind_of_ok (Attempt.get_apply _), Attempt.bind_of_ok (hdown _)]
  simp [join, Attempt.bind_apply, gather, start]

/-- A file that was just opened lets out all that is written to it at the latest when it is
flushed. -/
theorem exists_write_flush
    (h : (BlockWriter.start place append).HasRoom (Text.encode text) t) : ∃ w u v,
      write text (start place append, t) = .ok () (w, u) ∧
      flush (w, u) =
        .ok () (v, (BlockWriter.start place append).released (Text.encode text) t) ∧ v.Empty := by
  rw [write_start]
  generalize Text.encode text = bytes at h
  obtain ⟨f, u, f', hwrite, hflush, hempty⟩ := BlockWriter.exists_write_flush h
  by_cases hmuch : gatherSize ≤ bytes.size
  · have hbytes : bytes.isEmpty = false := by
      have hpos : 0 < bytes.size := Nat.lt_of_lt_of_le (by decide) hmuch
      simp only [ByteArray.isEmpty, beq_eq_false_iff_ne]
      omega
    refine ⟨⟨f, .empty⟩, u, ⟨f', .empty⟩, ?_, ?_, rfl, hempty⟩
    · rw [decide_eq_true hmuch, handDownIf, if_pos rfl, handDown_apply hbytes, onFile_apply, hwrite]
    · rw [flush, Attempt.bind_of_ok (handDown_of_isEmpty rfl), onFile_apply, hflush]
  · refine ⟨⟨.start place append, bytes⟩, t, ?_⟩
    rw [decide_eq_false hmuch]
    cases hbytes : bytes.isEmpty with
    | true =>
      obtain ⟨v, hv, hv'⟩ := flush_of_empty (w := ⟨.start place append, bytes⟩) (t := t)
        ⟨hbytes, rfl⟩
      refine ⟨v, rfl, ?_, hv'⟩
      rw [hv, BlockWriter.released, if_pos hbytes]
    | false =>
      refine ⟨⟨f', .empty⟩, rfl, ?_, rfl, hempty⟩
      rw [flush, Attempt.bind_apply, handDown_apply hbytes, onFile_apply, hwrite]
      dsimp only
      rw [onFile_apply, hflush]

end TextWriter

end PipelineShell
