import PipelineShell.Proofs.Jobs

/-! How targets are opened. A target that the system refuses is a failure of the shell's own; a
target that no path can be is not. -/

namespace PipelineShell

/-- A failure that is none of the shell's own. Lines do not report these. -/
def Failure.Escapes (f : Failure) : Prop :=
  ∀ g, f ≠ .shell g

/-- Opens the target in the tree, if there is one, and gives its place. -/
def Destination.openIn (dir : Location) (d : Destination) :
    FileTree.Change (Option Location) :=
  match d.target with
  | none => pure none
  | some path => do pure (some (← FileTree.openTarget dir path d.append))

/-- Opening two targets, one after the other, comes upon a path with a NUL in it. -/
def MeetsNul (dir : Location) (d d' : Destination) (t : FileTree) : Prop :=
  Attempt.Fails (· = .nulByte) (d.openIn dir >>= fun _ => d'.openIn dir) t

namespace Shell

variable {τ : Type}

def setTree (s : Shell τ) (t : FileTree) : Shell τ :=
  { s with world := { s.world with tree := t } }

def took (s : Shell τ) (stream : Stream) (d : Destination) (place : Option Location)
    (t : FileTree) : Shell τ :=
  match place with
  | none => s.setTree t
  | some place => (s.setTree t).setFile stream (some (.start place d.append))

theorem openDestination_apply (stream : Stream) (d : Destination) (s : Shell τ) :
    openDestination stream d s = match d.openIn s.world.dir s.world.tree with
      | .ok place t => .ok () (s.took stream d place t)
      | .error f t => .error (targetFailure (d.target.getD "") f) (s.setTree t) := by
  cases hd : d.target with
  | none => simp [openDestination, Destination.openIn, hd, took, setTree]
  | some path =>
    simp only [openDestination, Destination.openIn, hd, Attempt.bind_apply, openTarget]
    cases FileTree.openTarget s.world.dir path d.append s.world.tree <;> rfl

theorem openHeld_apply (d : Destination) (s : Shell τ) :
    openHeld d s = match d.openIn s.world.dir s.world.tree with
      | .ok place t => .ok (place.map (BlockWriter.start · d.append)) (s.setTree t)
      | .error f t => .error (targetFailure (d.target.getD "") f) (s.setTree t) := by
  cases hd : d.target with
  | none => simp [openHeld, Destination.openIn, hd, setTree]
  | some path =>
    simp only [openHeld, Destination.openIn, hd, Attempt.bind_apply, openTarget]
    cases FileTree.openTarget s.world.dir path d.append s.world.tree <;> rfl

theorem escapes_targetFailure {path : String} {f : Fault} :
    (targetFailure path f).Escapes ↔ f = .nulByte := by
  cases f <;> simp [targetFailure, Failure.Escapes]

theorem openDestination_fails_iff {stream : Stream} {d : Destination} {s : Shell τ} :
    Attempt.Fails Failure.Escapes (openDestination stream d) s ↔
      Attempt.Fails (· = .nulByte) (d.openIn s.world.dir) s.world.tree := by
  unfold Attempt.Fails
  rw [openDestination_apply]
  cases d.openIn s.world.dir s.world.tree <;> simp [escapes_targetFailure]

theorem openHeld_fails_iff {d : Destination} {s : Shell τ} :
    Attempt.Fails Failure.Escapes (openHeld d) s ↔
      Attempt.Fails (· = .nulByte) (d.openIn s.world.dir) s.world.tree := by
  unfold Attempt.Fails
  rw [openHeld_apply]
  cases d.openIn s.world.dir s.world.tree <;> simp [escapes_targetFailure]

end Shell

end PipelineShell
