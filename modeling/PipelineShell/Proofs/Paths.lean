import PipelineShell.Proofs.Trees

/-! Texts that can be paths. Opening a target comes upon a NUL only if the target holds one. -/

namespace PipelineShell

namespace FileTree

theorem isPath_iff {path : String} : isPath path = true ↔ '\x00' ∉ path.toList := by
  simp [isPath]

theorem isPath_of_subset {p q : String} (h : q.toList ⊆ p.toList) (hp : isPath p = true) :
    isPath q = true :=
  isPath_iff.mpr fun hq => isPath_iff.mp hp (h hq)

theorem split_subset (path : String) : (Path.split path).1.toList ⊆ path.toList ∧
    (Path.split path).2.toList ⊆ path.toList := by
  have hback : ∀ cs : List Char, cs.Sublist path.toList.reverse → cs.reverse ⊆ path.toList := by
    intro cs hcs c hc
    exact List.mem_reverse.mp (hcs.subset (List.mem_reverse.mp hc))
  have hhead := List.dropWhile_sublist (l := path.toList.reverse) (· != '/')
  unfold Path.split
  dsimp only
  rw [String.toList_ofList, String.toList_ofList]
  refine ⟨hback _ ?_, hback _ (List.takeWhile_sublist _)⟩
  split
  · exact hhead
  · exact (List.dropWhile_sublist _).trans hhead

theorem parentAndName_subset (path : String) : (parentAndName path).1.toList ⊆ path.toList := by
  unfold parentAndName
  dsimp only
  split
  · exact List.Subset.trans (split_subset _).1 (split_subset path).1
  · exact (split_subset path).1

def NulOnly (path : String) (f : Fault) : Prop :=
  f = .nulByte → isPath path = false

theorem NulOnly.of_subset {p q : String} (h : q.toList ⊆ p.toList) (f : Fault)
    (hq : NulOnly q f) : NulOnly p f := by
  intro hf
  cases hp : isPath p with
  | false => rfl
  | true => exact (isPath_of_subset h hp).symm.trans (hq hf)

theorem throws_refuse {α : Type} (path : String) (r : Refusal) :
    Attempt.Throws (NulOnly path) (refuse r : Change α) :=
  Attempt.throws_throw nofun

theorem throws_makeDirectory (dir : Location) (path : String) :
    Attempt.Throws (NulOnly path) (makeDirectory dir path) := by
  unfold makeDirectory
  cases hp : isPath path with
  | false => exact Attempt.throws_throw fun _ => hp
  | true =>
    refine Attempt.throws_get.bind fun t => ?_
    split
    · exact fun _ _ _ h => nomatch h
    · exact throws_refuse path _
    · exact throws_refuse path _

theorem throws_makeHere (dir : Location) (path : String) :
    Attempt.Throws (NulOnly path) (makeHere dir path) := by
  refine (throws_makeDirectory dir path).handle fun f y hy => ?_
  cases f with
  | nulByte => cases hy
  | refused r =>
    cases hy
    refine Attempt.throws_get.bind fun t => ?_
    split
    · exact Attempt.throws_pure _
    · exact throws_refuse path r

theorem throws_makeDirectoriesIn (dir : Location) (depth : Nat) (path : String) :
    Attempt.Throws (NulOnly path) (makeDirectoriesIn dir depth path) := by
  induction depth generalizing path with
  | zero => exact Attempt.throws_pure _
  | succ depth ih =>
    have habove : Attempt.Throws (NulOnly path)
        (makeAbove dir depth (parentAndName path).1) := by
      refine Attempt.Throws.handle ((ih _).mono ?_) fun f y hy => ?_
      · exact NulOnly.of_subset (parentAndName_subset path)
      · split at hy <;> cases hy
        exact Attempt.throws_pure _
    rw [makeDirectoriesIn_succ]
    refine Attempt.throws_get.bind fun t => ?_
    split
    · refine habove.bind fun _ => ?_
      split
      · exact Attempt.throws_pure _
      · exact throws_makeHere dir path
    · exact throws_makeHere dir path

theorem throws_openFile (dir : Location) (path : String) (append : Bool) :
    Attempt.Throws (NulOnly path) (openFile dir path append) := by
  unfold openFile
  cases hp : isPath path with
  | false => exact Attempt.throws_throw fun _ => hp
  | true =>
    refine Attempt.throws_get.bind fun t => ?_
    cases t.find dir path .made with
    | error r => exact throws_refuse path r
    | ok found =>
      cases found with
      | missing parent name => exact fun _ _ _ h => nomatch h
      | entry place e =>
        cases e <;> cases append <;>
          first | exact throws_refuse path _ | exact fun _ _ _ h => nomatch h

theorem throws_openTarget (dir : Location) (path : String) (append : Bool) :
    Attempt.Throws (NulOnly path) (openTarget dir path append) := by
  have hparent := NulOnly.of_subset (split_subset path).1
  unfold openTarget
  dsimp only
  split
  · exact ((throws_makeDirectoriesIn dir _ _).mono hparent).bind fun _ => throws_openFile _ _ _
  · exact throws_openFile _ _ _

end FileTree

end PipelineShell
