import PipelineShell.Proofs.Conduct.Stages
import PipelineShell.Proofs.Relays.Chains
import PipelineShell.Proofs.Writers.Pieces

/-! How many bytes a relay reads at a time. As long as something comes of such a read, the size
makes no difference to a pipeline; otherwise nothing passes a relay at all. -/

namespace PipelineShell

namespace Relay

variable {host : Host} {size : Int}

/-- A read is granted whose size is stated and not zero, if the host has the memory for it, and one
whose size is left unstated by a negative number. -/
theorem granted_iff : Granted host size ↔
    IsSize size ∧ (size < 0 ∨ 0 < size ∧ host.grants size.toNat = true) := by
  have hdefault : 0 < defaultRead := by decide
  have hroom := host.pipeRoom_pos
  unfold Granted readSize
  by_cases hsize : IsSize size
  · by_cases hneg : size < 0
    · have hmin : 0 < min defaultRead host.pipeRoom := by omega
      simp [hsize, hneg, hmin]
    · by_cases hgrants : host.grants size.toNat = true
      · have hmin : 0 < min size.toNat host.pipeRoom ↔ 0 < size := by omega
        simp [hsize, hneg, hgrants, hmin]
      · simp [hsize, hneg, hgrants]
  · simp [hsize]

theorem copy_of_not_granted (h : ¬Granted host size) (pieces : List ByteArray) :
    copy host size pieces = [] := by
  have hzero : readSize host size = 0 := by unfold Granted at h; omega
  refine List.flatMap_eq_nil_iff.mpr fun piece _ => ?_
  rw [hzero, readsFrom, dif_pos (.inl rfl), List.reverse_nil]

theorem isEmpty_of_mem_readsFrom {size : Nat} (hsize : 0 < size) {piece read : ByteArray} {i : Nat}
    {done : List ByteArray} (hdone : ∀ r ∈ done, r.isEmpty = false)
    (h : read ∈ readsFrom size piece i done) : read.isEmpty = false := by
  fun_induction readsFrom size piece i done with
  | case1 i done hend => exact hdone read h
  | case2 i done hmore ih =>
    refine ih (fun r hr => ?_) h
    rcases List.mem_cons.mp hr with rfl | hr
    · simp only [ByteArray.isEmpty, ByteArray.size_extract, beq_eq_false_iff_ne]
      omega
    · exact hdone r hr

theorem isEmpty_of_mem_copy (h : Granted host size) {pieces : List ByteArray} {read : ByteArray}
    (hread : read ∈ copy host size pieces) : read.isEmpty = false := by
  obtain ⟨piece, -, hmem⟩ := List.mem_flatMap.mp hread
  exact isEmpty_of_mem_readsFrom h (by simp) (List.mem_reverse.mp hmem)

theorem joined_cons (a b : ByteArray) (pieces : List ByteArray) :
    joined (a :: b :: pieces) = joined ((a ++ b) :: pieces) := by
  simp [joined]

theorem isEmpty_joined_cons {a : ByteArray} (ha : a.isEmpty = false) (pieces : List ByteArray) :
    (joined (a :: pieces)).isEmpty = false := by
  induction pieces generalizing a with
  | nil => simpa [joined] using ha
  | cons b pieces ih =>
    rw [joined_cons]
    exact ih (isEmpty_append_left ha b)

theorem joined_singleton (a : ByteArray) : joined [a] = a :=
  ByteArray.empty_append

end Relay

namespace Job

open BlockWriter Relay

variable {τ : Type} {n : Nat} {j : Job τ} {w w' : BlockWriter} {t t' : FileTree}

theorem putAll_of_onFull (hfile : j.file? n = some w) (hfull : w.OnFull j.shell.world.tree)
    {piece : ByteArray} (hpiece : piece.isEmpty = false) (pieces : List ByteArray) :
    putAll n (piece :: pieces) j =
      .ok (some (joined pieces).size) (j.setFile n w j.shell.world.tree) := by
  simp only [putAll_cons_apply, onFile_of_file? hfile, put_of_onFull hpiece hfull]

theorem not_onFull_moved (h : ¬w.OnFull t) (bytes : ByteArray) :
    ¬(w.moved bytes).OnFull (w.released bytes t) := by
  have hstays := (keeps_put bytes).ok (put_eq (.inr h : w.HasRoom bytes t))
  exact fun hmoved => h ((onFull_of_stays hstays).mp hmoved)

/-- A file takes two pieces as it takes them put together, unless the first is empty: that would
not be refused where there is no room. -/
theorem putAll_cons_cons {a : ByteArray} (ha : a.isEmpty = false) (b : ByteArray)
    (pieces : List ByteArray) (n : Nat) : discard (putAll n (a :: b :: pieces) : Job.Step τ _) =
      discard (putAll n ((a ++ b) :: pieces)) := by
  funext j
  rw [Attempt.discard_apply, Attempt.discard_apply]
  cases hfile : j.file? n with
  | none => rw [putAll_of_none hfile, putAll_of_none hfile]
  | some w =>
    by_cases hfull : w.OnFull j.shell.world.tree
    · rw [putAll_of_onFull hfile hfull ha, putAll_of_onFull hfile hfull (isEmpty_append_left ha b)]
    · have hfile' := file?_setFile hfile (w.moved a) (w.released a j.shell.world.tree)
      have htree : (j.setFile n (w.moved a) (w.released a j.shell.world.tree)).shell.world.tree =
          w.released a j.shell.world.tree := rfl
      have hsecond : BlockWriter.put b (w.moved a, w.released a j.shell.world.tree) =
          .ok () (w.moved (a ++ b), w.released (a ++ b) j.shell.world.tree) := by
        rw [put_eq (.inr (not_onFull_moved hfull a)), moved_moved, released_released]
      simp only [putAll_cons_apply, onFile_of_file? hfile, onFile_of_file? hfile', put_eq (.inr hfull),
        htree, hsecond, setFile_setFile]

theorem putAll_cons {a : ByteArray} (ha : a.isEmpty = false) (pieces : List ByteArray) (n : Nat) :
    discard (putAll n (a :: pieces) : Job.Step τ _) =
      discard (putAll n [joined (a :: pieces)]) := by
  induction pieces generalizing a with
  | nil => rw [joined_singleton]
  | cons b pieces ih =>
    rw [putAll_cons_cons ha, joined_cons, ih (isEmpty_append_left ha b)]

theorem copy_cases {host : Host} {size : Int} (h : Granted host size) (pieces : List ByteArray) :
    (copy host size pieces = [] ∧ (joined pieces).isEmpty = true) ∨
      ∃ read reads, copy host size pieces = read :: reads ∧ read.isEmpty = false ∧
        (joined pieces).isEmpty = false := by
  have hjoined := joined_copy h pieces
  cases hcopy : copy host size pieces with
  | nil =>
    refine .inl ⟨rfl, ?_⟩
    rw [← hjoined, hcopy]
    rfl
  | cons read reads =>
    have hread : read.isEmpty = false := isEmpty_of_mem_copy h (hcopy ▸ List.mem_cons_self)
    refine .inr ⟨read, reads, rfl, hread, ?_⟩
    rw [← hjoined, hcopy]
    exact isEmpty_joined_cons hread reads

/-- What a relay writes to a file: all the bytes at once, if there are any. -/
theorem putAll_copy {host : Host} {size : Int} (h : Granted host size) (pieces : List ByteArray)
    (n : Nat) : discard (putAll n (copy host size pieces) : Job.Step τ _) =
      if (joined pieces).isEmpty then pure () else discard (putAll n [joined pieces]) := by
  rcases copy_cases h pieces with ⟨hcopy, hempty⟩ | ⟨read, reads, hcopy, hread, hmore⟩
  · rw [if_pos hempty, hcopy]
    rfl
  · rw [if_neg (by simp [hmore]), hcopy, putAll_cons hread, ← hcopy, joined_copy h]

theorem exists_putAll_copy {host : Host} {size : Int} (h : Granted host size)
    (pieces : List ByteArray) (hfile : j.file? n = some w)
    (hroom : ¬w.OnFull j.shell.world.tree) :
    ∃ j', putAll n (copy host size pieces) j = .ok none j' ∧
      j'.shell.world.tree = w.released (joined pieces) j.shell.world.tree := by
  obtain ⟨j', hput⟩ := exists_putAll hfile hroom (copy host size pieces)
  have hsame := congrFun (putAll_copy (τ := τ) h pieces n) j
  refine ⟨j', hput, ?_⟩
  cases hempty : (joined pieces).isEmpty with
  | true =>
    rw [if_pos hempty, Attempt.discard_apply, hput] at hsame
    cases hsame
    exact (if_pos hempty).symm
  | false =>
    rw [if_neg (by simp [hempty]), Attempt.discard_apply, hput, Attempt.discard_apply,
      putAll_cons_apply, onFile_of_file? hfile, put_eq (.inr hroom)] at hsame
    cases hsame
    rfl

end Job

end PipelineShell
