import PipelineShell.FileTree.Change
import PipelineShell.Proofs.Attempt

/-! What changes of a file tree leave as it was. No step of the shell makes a device or removes
one. -/

namespace PipelineShell

theorem lookup_cons_ite {κ ν : Type} [BEq κ] [LawfulBEq κ] [DecidableEq κ] (k k' : κ) (v : ν)
    (entries : List (κ × ν)) :
    ((k, v) :: entries).lookup k' = if k' = k then some v else entries.lookup k' := by
  rw [List.lookup_cons]
  by_cases h : k' = k
  · simp [h]
  · simp [h, beq_false_of_ne h]

namespace FileTree

theorem lookup_putIn (l l' : Location) (e : Entry) (entries : List (Location × Entry)) :
    (putIn l e entries).lookup l' = if l' = l then some e else entries.lookup l' := by
  induction entries with
  | nil => exact lookup_cons_ite l l' e []
  | cons p ps ih =>
    obtain ⟨k, v⟩ := p
    simp only [putIn]
    by_cases hk : k = l
    · subst hk
      rw [if_pos rfl, lookup_cons_ite, lookup_cons_ite]
      by_cases h : l' = k <;> simp [h]
    · rw [if_neg hk, lookup_cons_ite, lookup_cons_ite, ih]
      by_cases h : l' = k
      · simp [h, hk]
      · simp [h]

theorem get?_put (t : FileTree) (l l' : Location) (e : Entry) : (t.put l e).get? l' =
    if l' ≠ [] ∧ l' = l then some e else t.get? l' := by
  cases l' with
  | nil => simp [get?]
  | cons a l' => simp [get?, put, lookup_putIn]

theorem blockSize_revise (t : FileTree) (l : Location) (change : ByteArray → ByteArray) :
    (t.revise l change).blockSize = t.blockSize := by
  unfold revise
  split <;> rfl

theorem get?_revise_device (t : FileTree) (l l' : Location) (change : ByteArray → ByteArray)
    (d : Device) :
    (t.revise l change).get? l' = some (.device d) ↔ t.get? l' = some (.device d) := by
  unfold revise
  split
  · next h =>
    rw [get?_put]
    split
    · next hl => simp [hl.2, h]
    · rfl
  · rfl

/-- Every device was there before. -/
def NoNewDevice (t t' : FileTree) : Prop :=
  ∀ l d, t'.get? l = some (.device d) → t.get? l = some (.device d)

instance : IsPreorder FileTree NoNewDevice where
  refl _ _ _ h := h
  trans _ _ _ h h' l d hd := h l d (h' l d hd)

/-- A tree without the device that takes nothing. -/
def Roomy (t : FileTree) : Prop :=
  ∀ l, t.get? l ≠ some (.device .full)

theorem Roomy.of_noNewDevice {t t' : FileTree} (h : t.Roomy) (hd : NoNewDevice t t') : t'.Roomy :=
  fun l hl => h l (hd l .full hl)

theorem noNewDevice_put (t : FileTree) (l : Location) {e : Entry} (he : ∀ d, e ≠ .device d) :
    NoNewDevice t (t.put l e) := by
  intro l' d h
  rw [get?_put] at h
  split at h
  · exact absurd (Option.some.inj h) (he d)
  · exact h

theorem keeps_makeDirectory (dir : Location) (path : String) :
    Attempt.Keeps NoNewDevice (makeDirectory dir path) := by
  unfold makeDirectory
  cases isPath path with
  | false => exact Attempt.keeps_throw _
  | true =>
    refine Attempt.keeps_get fun t => ?_
    cases t.findSteps dir path .itself ((Path.steps path).filter (!·.isEmpty)) with
    | error r => exact Attempt.keeps_throw _ t
    | ok found =>
      cases found with
      | entry place e => exact Attempt.keeps_throw _ t
      | missing parent name => exact noNewDevice_put t _ nofun

def makeHere (dir : Location) (path : String) : Change Unit :=
  (makeDirectory dir path).handle fun f =>
    match f with
    | .refused r => some do
      let t ← get
      if t.isDirectory dir path then pure () else refuse r
    | .nulByte => none

def makeAbove (dir : Location) (depth : Nat) (path : String) : Change Unit :=
  (makeDirectoriesIn dir depth path).handle fun f =>
    if f = .refused .exists then some (pure ()) else none

theorem makeDirectoriesIn_succ (dir : Location) (depth : Nat) (path : String) :
    makeDirectoriesIn dir (depth + 1) path = get >>= fun t =>
      if (parentAndName path).1 ≠ "" ∧ (parentAndName path).2 ≠ "" ∧
          t.entry? dir (parentAndName path).1 = none then
        makeAbove dir depth (parentAndName path).1 >>= fun _ =>
          if (parentAndName path).2 = "." then pure () else makeHere dir path
      else makeHere dir path := by
  funext t
  simp only [makeDirectoriesIn, makeAbove, makeHere, Attempt.bind_apply, Attempt.get_apply]
  by_cases hmissing : (parentAndName path).1 ≠ "" ∧ (parentAndName path).2 ≠ "" ∧
      t.entry? dir (parentAndName path).1 = none
  · rw [if_pos hmissing, if_pos hmissing]
    refine congrFun (congrArg _ (funext fun _ => ?_)) t
    exact ite_congr (propext (and_iff_right hmissing)) (fun _ => rfl) fun _ => rfl
  · rw [if_neg hmissing, if_neg hmissing]
    exact congrFun (if_neg fun h => hmissing (And.left h)) t

section

variable {R : FileTree → FileTree → Prop} [IsPreorder FileTree R] {dir : Location} {path : String}

theorem keeps_makeHere (h : Attempt.Keeps R (makeDirectory dir path)) :
    Attempt.Keeps R (makeHere dir path) := by
  refine h.handle fun f y hy => ?_
  cases f with
  | nulByte => cases hy
  | refused r =>
    cases hy
    refine Attempt.keeps_get fun t => ?_
    split
    · exact Attempt.keeps_pure _ t
    · exact Attempt.keeps_throw _ t

theorem keeps_makeDirectoriesIn {P : String → Prop}
    (habove : ∀ path, P path → P (parentAndName path).1)
    (h : ∀ path, P path → Attempt.Keeps R (makeDirectory dir path)) (depth : Nat)
    (hpath : P path) : Attempt.Keeps R (makeDirectoriesIn dir depth path) := by
  induction depth generalizing path with
  | zero => exact Attempt.keeps_pure _
  | succ depth ih =>
    have hmade : Attempt.Keeps R (makeAbove dir depth (parentAndName path).1) := by
      refine (ih (habove path hpath)).handle fun f y hy => ?_
      split at hy <;> cases hy
      exact Attempt.keeps_pure _
    rw [makeDirectoriesIn_succ]
    refine Attempt.keeps_get fun t => ?_
    split
    · refine (hmade.bind fun _ => ?_) t
      split
      · exact Attempt.keeps_pure _
      · exact keeps_makeHere (h path hpath)
    · exact keeps_makeHere (h path hpath) t

theorem keeps_makeDirectories (h : ∀ path, Attempt.Keeps R (makeDirectory dir path))
    (path : String) : Attempt.Keeps R (makeDirectories dir path) :=
  keeps_makeDirectoriesIn (P := fun _ => True) (fun _ _ => trivial) (fun path _ => h path) _ trivial

end

theorem keeps_openFile (dir : Location) (path : String) (append : Bool) :
    Attempt.Keeps NoNewDevice (openFile dir path append) := by
  unfold openFile
  cases isPath path with
  | false => exact Attempt.keeps_throw _
  | true =>
    refine Attempt.keeps_get fun t => ?_
    cases t.find dir path .made with
    | error r => exact Attempt.keeps_throw _ t
    | ok found =>
      cases found with
      | missing parent name => exact noNewDevice_put t _ nofun
      | entry place e =>
        have hdropped : NoNewDevice t (t.revise place fun _ => .empty) :=
          fun l d => (get?_revise_device t place l _ d).mp
        cases e <;> cases append <;> first | exact refl_of NoNewDevice t | exact hdropped

theorem keeps_openTarget (dir : Location) (path : String) (append : Bool) :
    Attempt.Keeps NoNewDevice (openTarget dir path append) := by
  unfold openTarget
  dsimp only
  split
  · exact (keeps_makeDirectories (keeps_makeDirectory dir) _).bind fun _ => keeps_openFile _ _ _
  · exact keeps_openFile _ _ _

end FileTree

end PipelineShell
