import PipelineShell.Proofs.Copying.Opened
import PipelineShell.Proofs.Writers.Pieces

/-! What comes to a file over many writes. The bytes that a file takes are let out in order: some
are in the tree, some are held, and some are still gathered, and at the end all are in the tree. -/

namespace PipelineShell

open Attempt FileTree

namespace BlockWriter

variable {f : BlockWriter} {t₀ : FileTree} {all bytes : ByteArray} {p : BlockWriter × FileTree}

/-- The bytes that a file has taken since it was this one, in this tree: those that it has let out,
and those that it holds. -/
def Taken (f : BlockWriter) (t₀ : FileTree) (all : ByteArray) (p : BlockWriter × FileTree) : Prop :=
  ∃ done, p.1 = { f.moved done with held := p.1.held } ∧ p.2 = f.released done t₀ ∧
    all = done ++ p.1.held

theorem taken_self (h : f.held = .empty) : Taken f t₀ .empty (f, t₀) := by
  refine ⟨.empty, ?_, rfl, ?_⟩
  · rw [moved_of_isEmpty f rfl]
  · rw [h, ByteArray.append_empty]

theorem moved_hold (w : BlockWriter) (held bytes : ByteArray) :
    moved { w with held := held } bytes = { w.moved bytes with held := held } := by
  cases w with
  | mk place append offset old => cases append <;> rfl

theorem keepsBut_released (f : BlockWriter) (bytes : ByteArray) (t : FileTree) :
    KeepsBut f.place t (f.released bytes t) := by
  unfold released
  split
  · exact refl_of (KeepsBut f.place) t
  · exact keepsBut_revise _ _ _

variable (hf : ¬f.OnFull t₀)

include hf

theorem put_after (done held bytes : ByteArray) :
    put bytes ({ f.moved done with held := held }, f.released done t₀) =
      .ok () ({ f.moved (done ++ bytes) with held := held }, f.released (done ++ bytes) t₀) := by
  have hroom : HasRoom { f.moved done with held := held } bytes (f.released done t₀) := by
    refine .inr fun hfull => hf ?_
    have hlater : f.OnFull (f.released done t₀) := by simpa [OnFull] using hfull
    exact onFull_released.mp hlater
  have hreleased : released { f.moved done with held := held } bytes (f.released done t₀) =
      (f.moved done).released bytes (f.released done t₀) := rfl
  rw [put_eq hroom, moved_hold, hreleased, moved_moved, released_released]

theorem flush_of_taken (h : Taken f t₀ all p) :
    flush p = .ok () ({ f.moved all with held := .empty }, f.released all t₀) := by
  obtain ⟨w, t⟩ := p
  obtain ⟨done, hw, ht, rfl⟩ := h
  dsimp only at hw ht
  have hput := put_after hf done w.held w.held
  rw [← hw, ← ht] at hput
  exact Attempt.bind_of_ok hput _

theorem taken_write (h : Taken f t₀ all p) (bytes : ByteArray) :
    ∃ q, write bytes p = .ok () q ∧ Taken f t₀ (all ++ bytes) q := by
  have hflush := flush_of_taken hf h
  obtain ⟨w, t⟩ := p
  obtain ⟨done, hw, ht, rfl⟩ := h
  dsimp only at hw ht hflush ⊢
  -- The bytes are held with the others; or those are let out first, and then more than a block is
  -- let out at once and less is held.
  by_cases hfit : w.held.size + bytes.size ≤ t.blockSize ∧ bytes.size < t.blockSize
  · refine ⟨({ w with held := w.held ++ bytes }, t), ?_, done, ?_, ht, ByteArray.append_assoc⟩
    · simp only [write, Attempt.bind_apply, Attempt.get_apply, if_pos hfit]
      rfl
    · rw [hw]
  · by_cases hbig : t.blockSize < bytes.size
    · refine ⟨({ f.moved (done ++ w.held ++ bytes) with held := .empty },
        f.released (done ++ w.held ++ bytes) t₀), ?_, _, rfl, rfl, ?_⟩
      · simp only [write, Attempt.bind_apply, Attempt.get_apply, if_neg hfit, hflush, if_pos hbig]
        exact put_after hf _ _ _
      · exact ByteArray.append_empty.symm
    · refine ⟨({ f.moved (done ++ w.held) with held := bytes }, f.released (done ++ w.held) t₀), ?_,
        _, rfl, rfl, rfl⟩
      simp only [write, Attempt.bind_apply, Attempt.get_apply, if_neg hfit, hflush, if_neg hbig]
      rfl

end BlockWriter

namespace TextWriter

variable {f : BlockWriter} {t₀ : FileTree} {all bytes : ByteArray} {p : TextWriter × FileTree}

/-- The bytes that a text file has taken: those that came to the file below, and those that are
gathered. -/
def Taken (f : BlockWriter) (t₀ : FileTree) (all : ByteArray) (p : TextWriter × FileTree) : Prop :=
  ∃ below, BlockWriter.Taken f t₀ below (p.1.file, p.2) ∧ all = below ++ p.1.gathered

theorem taken_start (place : Location) (append : Bool) (t : FileTree) :
    Taken (.start place append) t .empty (.start place append, t) :=
  ⟨.empty, BlockWriter.taken_self rfl, rfl⟩

variable (hf : ¬f.OnFull t₀)

include hf

theorem taken_handDown (h : Taken f t₀ all p) :
    ∃ q, handDown p = .ok () q ∧ Taken f t₀ all q ∧ q.1.gathered = .empty := by
  obtain ⟨w, t⟩ := p
  cases hg : w.gathered.isEmpty with
  | true => exact ⟨_, handDown_of_isEmpty hg, h, eq_empty_of_isEmpty hg⟩
  | false =>
    obtain ⟨below, hbelow, rfl⟩ := h
    obtain ⟨⟨v, u⟩, hwrite, htaken⟩ := BlockWriter.taken_write hf hbelow w.gathered
    refine ⟨(⟨v, .empty⟩, u), ?_, ⟨_, htaken, ByteArray.append_empty.symm⟩, rfl⟩
    rw [handDown_apply hg, onFile_apply]
    dsimp only at hwrite ⊢
    rw [hwrite]

theorem taken_handDownIf (h : Taken f t₀ all p) (b : Bool) :
    ∃ q, handDownIf b p = .ok () q ∧ Taken f t₀ all q := by
  cases b with
  | false => exact ⟨p, rfl, h⟩
  | true =>
    obtain ⟨q, hq, htaken, -⟩ := taken_handDown hf h
    exact ⟨q, hq, htaken⟩

theorem taken_join (h : Taken f t₀ all p) (bytes : ByteArray) :
    ∃ q, join bytes p = .ok () q ∧ Taken f t₀ (all ++ bytes) q := by
  obtain ⟨below, hbelow, rfl⟩ := h
  have hgathered : Taken f t₀ (below ++ p.1.gathered ++ bytes)
      ({ p.1 with gathered := p.1.gathered ++ bytes }, p.2) :=
    ⟨below, hbelow, ByteArray.append_assoc⟩
  exact taken_handDownIf hf hgathered _

theorem taken_write (h : Taken f t₀ all p) (text : String) :
    ∃ q, write text p = .ok () q ∧ Taken f t₀ (all ++ Text.encode text) q := by
  rw [write_eq, Attempt.bind_of_ok (Attempt.get_apply p)]
  obtain ⟨q, hq, htaken⟩ := taken_handDownIf hf h _
  rw [Attempt.bind_of_ok hq]
  exact taken_join hf htaken _

theorem taken_flush (h : Taken f t₀ all p) : ∃ q, flush p = .ok () q ∧
    BlockWriter.Taken f t₀ all (q.1.file, q.2) ∧ q.1.gathered = .empty := by
  obtain ⟨⟨w, t⟩, hdown, ⟨below, hbelow, rfl⟩, hgathered⟩ := taken_handDown hf h
  dsimp only at hbelow hgathered
  have hflush := BlockWriter.flush_of_taken hf hbelow
  rw [hgathered, ByteArray.append_empty]
  refine ⟨({ w with file := { f.moved below with held := .empty } }, f.released below t₀), ?_,
    ⟨below, rfl, rfl, ByteArray.append_empty.symm⟩, hgathered⟩
  rw [flush, Attempt.bind_of_ok hdown, onFile_apply, hflush]

theorem taken_close (h : Taken f t₀ all p) :
    ∃ w, close p = .ok () (w, f.released all t₀) := by
  obtain ⟨⟨w, t⟩, hflush, hbelow, -⟩ := taken_flush hf h
  have hlast : onFile BlockWriter.flush (w, t) =
      .ok () ({ w with file := { f.moved all with held := .empty } }, f.released all t₀) := by
    rw [onFile_apply, BlockWriter.flush_of_taken hf hbelow]
  exact ⟨_, Attempt.ensure_eq_ok.mpr ⟨_, hflush, hlast⟩⟩

end TextWriter

end PipelineShell
