import PipelineShell.Proofs.Attempt
import PipelineShell.Writer.Text

/-! What the steps of open files keep. Each is made of two kinds of steps: bytes are held, or they
are let out. What these keep, all of them do. -/

namespace PipelineShell

open Attempt

namespace BlockWriter

/-- Holding bytes and letting them out keep the relation. -/
structure Carries (R : BlockWriter × FileTree → BlockWriter × FileTree → Prop) : Prop where
  hold : ∀ bytes, Keeps R (hold bytes)
  put : ∀ bytes, Keeps R (put bytes)

namespace Carries

variable {R : BlockWriter × FileTree → BlockWriter × FileTree → Prop}
  [IsPreorder (BlockWriter × FileTree) R] (h : Carries R)

include h

theorem flush : Keeps R flush :=
  keeps_get fun p => ((h.put _).bind fun _ => h.hold _) p

theorem write (bytes : ByteArray) : Keeps R (write bytes) := by
  refine keeps_get fun p => ?_
  dsimp only
  split
  · exact h.hold _ p
  · refine (h.flush.bind fun _ => ?_) p
    split
    · exact h.put _
    · exact h.hold _

end Carries

end BlockWriter

namespace TextWriter

def handDownIf (b : Bool) : Writing Unit :=
  if b then handDown else pure ()

def join (bytes : ByteArray) : Writing Unit := do
  let (w, _) ← get
  gather (w.gathered ++ bytes)
  handDownIf (gatherSize ≤ (w.gathered ++ bytes).size)

theorem write_eq (text : String) : write text = (get >>= fun p =>
    handDownIf (gatherSize < p.1.gathered.size + (Text.encode text).size) >>= fun _ =>
      join (Text.encode text)) := by
  funext p
  by_cases h : gatherSize < p.1.gathered.size + (Text.encode text).size <;>
    simp [write, handDownIf, join, Attempt.bind_apply, h]

/-- The files below stand in a relation. What is gathered makes no difference. -/
def Below (R : BlockWriter × FileTree → BlockWriter × FileTree → Prop)
    (p q : TextWriter × FileTree) : Prop :=
  R (p.1.file, p.2) (q.1.file, q.2)

variable {R : BlockWriter × FileTree → BlockWriter × FileTree → Prop}
  [IsPreorder (BlockWriter × FileTree) R]

instance : IsPreorder (TextWriter × FileTree) (Below R) where
  refl p := refl_of R (p.1.file, p.2)
  trans _ _ _ := trans_of R

omit [IsPreorder (BlockWriter × FileTree) R] in
theorem below_onFile {step : BlockWriter.Writing Unit} (h : Keeps R step) :
    Keeps (Below R) (onFile step) := by
  rintro ⟨w, t⟩
  have hs := h (w.file, t)
  unfold Attempt.final onFile Attempt.within at *
  cases hstep : step (w.file, t) <;> (rw [hstep] at hs; exact hs)

theorem below_gather (bytes : ByteArray) : Keeps (Below R) (gather bytes) :=
  keeps_modify fun p => refl_of R (p.1.file, p.2)

variable (h : BlockWriter.Carries R)

include h

theorem below_handDown : Keeps (Below R) handDown := by
  refine keeps_get fun p => ?_
  dsimp only
  split
  · exact keeps_pure () p
  · exact ((below_gather _).bind fun _ => below_onFile (h.write _)) p

theorem below_handDownIf (b : Bool) : Keeps (Below R) (handDownIf b) := by
  cases b with
  | true => exact below_handDown h
  | false => exact keeps_pure ()

theorem below_write (text : String) : Keeps (Below R) (write text) := by
  rw [write_eq]
  refine keeps_get fun p => ((below_handDownIf h _).bind fun _ => ?_) p
  exact keeps_get fun p => ((below_gather _).bind fun _ => below_handDownIf h _) p

theorem below_flush : Keeps (Below R) flush :=
  (below_handDown h).bind fun _ => below_onFile h.flush

theorem below_close : Keeps (Below R) close :=
  (below_flush h).ensure (below_onFile h.flush)

end TextWriter

end PipelineShell
