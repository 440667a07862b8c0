import PipelineShell.Proofs.Trees
import PipelineShell.FileTree.Walk

/-! Trees that differ in the bytes of files alone. Paths lead to the same places in them. -/

namespace PipelineShell

namespace Entry

def rewrite (change : ByteArray → ByteArray) : Entry → Entry
  | .file content executable => .file (change content) executable
  | e => e

def kind (e : Entry) : Entry :=
  e.rewrite fun _ => .empty

def IsFile (e : Entry) : Prop :=
  ∃ content executable, e = .file content executable

theorem kind_rewrite (change : ByteArray → ByteArray) (e : Entry) :
    (e.rewrite change).kind = e.kind := by
  cases e <;> rfl

theorem rewrite_of_not_isFile {e : Entry} (h : ¬e.IsFile) (change : ByteArray → ByteArray) :
    e.rewrite change = e := by
  cases e with
  | file content executable => exact absurd ⟨content, executable, rfl⟩ h
  | _ => rfl

end Entry

def Found.kind : Found → Found
  | .entry place e => .entry place e.kind
  | .missing dir name => .missing dir name

/-- The tree has at the place what was found there. -/
def Found.Fits (t : FileTree) : Found → Prop
  | .entry place e => e = .directory ∨ t.get? place = some e
  | .missing dir name => t.get? (dir ++ [name]) = none

namespace FileTree

variable {t t' : FileTree}

theorem get?_revise (t : FileTree) (l l' : Location) (change : ByteArray → ByteArray) :
    (t.revise l change).get? l' =
      if l' = l then (t.get? l').map (Entry.rewrite change) else t.get? l' := by
  unfold revise
  cases he : t.get? l with
  | none => by_cases hl : l' = l <;> simp [hl, he]
  | some e =>
    cases e with
    | file content executable =>
      rw [get?_put]
      by_cases hl : l' = l
      · subst hl
        have hroot : l' ≠ [] := by
          rintro rfl
          simp [get?] at he
        simp [hroot, he, Entry.rewrite]
      · simp [hl]
    | _ => by_cases hl : l' = l <;> simp [hl, he, Entry.rewrite]

/-- The two trees differ at most in the bytes of files. -/
def SameKinds (t t' : FileTree) : Prop :=
  ∀ l, (t'.get? l).map Entry.kind = (t.get? l).map Entry.kind

theorem sameKinds_revise (t : FileTree) (l : Location) (change : ByteArray → ByteArray) :
    SameKinds t (t.revise l change) := by
  intro l'
  rw [get?_revise]
  split
  · cases t.get? l' <;> simp [Entry.kind_rewrite]
  · rfl

namespace SameKinds

theorem symm (h : SameKinds t t') : SameKinds t' t :=
  fun l => (h l).symm

variable (h : SameKinds t t')

include h

theorem walkFrom {onLink onLink' : Location → List String → Except Refusal Found}
    (hlink : ∀ here names,
      (onLink' here names).map Found.kind = (onLink here names).map Found.kind)
    (ending : Ending) (here : Location) (names : List String) :
    (t'.walkFrom onLink' ending here names).map Found.kind =
      (t.walkFrom onLink ending here names).map Found.kind := by
  induction names generalizing here with
  | nil => rfl
  | cons name rest ih =>
    by_cases hstay : name = "" ∨ name = "."
    · simpa only [FileTree.walkFrom, if_pos hstay] using ih here
    by_cases hup : name = ".."
    · simpa only [FileTree.walkFrom, if_neg hstay, if_pos hup] using ih here.dropLast
    by_cases hmade : ending = .made ∧ rest ≠ [] ∧ rest.all (· = "")
    · simp only [FileTree.walkFrom, if_neg hstay, if_neg hup, if_pos hmade]
    by_cases hlong : longestName < name.utf8ByteSize
    · simp only [FileTree.walkFrom, if_neg hstay, if_neg hup, if_neg hmade, if_pos hlong]
    have hentry := h (here ++ [name])
    simp only [FileTree.walkFrom, if_neg hstay, if_neg hup, if_neg hmade, if_neg hlong]
    generalize t.get? (here ++ [name]) = e at hentry ⊢
    generalize t'.get? (here ++ [name]) = e' at hentry ⊢
    rcases e with _ | e <;> rcases e' with _ | e'
    case none.none => rfl
    case none.some => simp at hentry
    case some.none => simp at hentry
    case some.some =>
      cases e <;> cases e' <;> simp only [Option.map_some, Option.some.injEq, Entry.kind,
        Entry.rewrite, Entry.link.injEq, Entry.file.injEq, Entry.device.injEq,
        Entry.tool.injEq, reduceCtorEq, true_and] at hentry
      case directory.directory => exact ih _
      case link.link =>
        subst hentry
        dsimp only
        split
        · rfl
        · exact hlink _ _
      case file.file =>
        subst hentry
        dsimp only
        split <;> rfl
      all_goals
        subst hentry
        rfl

theorem walk (ending : Ending) (links : Nat) (here : Location) (names : List String) :
    (t'.walk ending links here names).map Found.kind =
      (t.walk ending links here names).map Found.kind := by
  induction links generalizing here names with
  | zero => exact h.walkFrom (fun _ _ => rfl) ending here names
  | succ links ih => exact h.walkFrom ih ending here names

theorem findSteps (dir : Location) (path : String) (ending : Ending) (steps : List String) :
    (t'.findSteps dir path ending steps).map Found.kind =
      (t.findSteps dir path ending steps).map Found.kind := by
  unfold FileTree.findSteps
  split
  · rfl
  · split
    · rfl
    · exact h.walk ending linkLimit _ steps

theorem find (dir : Location) (path : String) (ending : Ending) :
    (t'.find dir path ending).map Found.kind = (t.find dir path ending).map Found.kind :=
  h.findSteps dir path ending _

theorem reach (dir : Location) (path : String) :
    (t'.reach dir path).map (fun f => (f.1, f.2.kind)) =
      (t.reach dir path).map fun f => (f.1, f.2.kind) := by
  have hfind := h.find dir path .followed
  unfold FileTree.reach
  generalize t.find dir path .followed = f at hfind ⊢
  generalize t'.find dir path .followed = f' at hfind ⊢
  rcases f with _ | ⟨_ | _⟩ <;> rcases f' with _ | ⟨_ | _⟩ <;>
    simp_all [Except.map, Found.kind]

theorem reach_of_ok {dir place : Location} {path : String} {e : Entry}
    (he : t.reach dir path = .ok (place, e)) :
    ∃ e', t'.reach dir path = .ok (place, e') ∧ e'.kind = e.kind := by
  have hreach := h.reach dir path
  rw [he] at hreach
  cases ht : t'.reach dir path with
  | error r => simp [ht, Except.map] at hreach
  | ok f =>
    obtain ⟨place', e'⟩ := f
    simp only [ht, Except.map, Except.ok.injEq, Prod.mk.injEq] at hreach
    exact ⟨e', by rw [hreach.1], hreach.2⟩

theorem reach_of_error {dir : Location} {path : String} {r : Refusal}
    (hr : t.reach dir path = .error r) : t'.reach dir path = .error r := by
  have hreach := h.reach dir path
  rw [hr] at hreach
  cases ht : t'.reach dir path <;> simp_all [Except.map]

theorem entry? (dir : Location) (path : String) :
    (t'.entry? dir path).map Entry.kind = (t.entry? dir path).map Entry.kind := by
  have hreach := h.reach dir path
  unfold FileTree.entry?
  generalize t.reach dir path = f at hreach ⊢
  generalize t'.reach dir path = f' at hreach ⊢
  cases f <;> cases f' <;> simp_all [Except.map, Except.toOption]

theorem entry?_eq_none (dir : Location) (path : String) :
    t'.entry? dir path = none ↔ t.entry? dir path = none := by
  have hentry := h.entry? dir path
  cases he : t.entry? dir path <;> cases he' : t'.entry? dir path <;> simp_all

theorem isDirectory (dir : Location) (path : String) :
    t'.isDirectory dir path = t.isDirectory dir path := by
  have hentry := h.entry? dir path
  unfold FileTree.isDirectory
  generalize t.entry? dir path = e at hentry ⊢
  generalize t'.entry? dir path = e' at hentry ⊢
  rcases e with _ | _ | _ | _ | _ | _ <;> rcases e' with _ | _ | _ | _ | _ | _ <;>
    simp_all [Entry.kind, Entry.rewrite]

theorem isExecutable (dir : Location) (path : String) :
    t'.isExecutable dir path = t.isExecutable dir path := by
  have hentry := h.entry? dir path
  unfold FileTree.isExecutable
  generalize t.entry? dir path = e at hentry ⊢
  generalize t'.entry? dir path = e' at hentry ⊢
  rcases e with _ | _ | _ | _ | _ | _ <;> rcases e' with _ | _ | _ | _ | _ | _ <;>
    simp_all [Entry.kind, Entry.rewrite]

theorem enter (dir : Location) (path : String) : t'.enter dir path = t.enter dir path := by
  have hreach := h.reach dir path
  unfold FileTree.enter
  generalize t.reach dir path = f at hreach ⊢
  generalize t'.reach dir path = f' at hreach ⊢
  rcases f with _ | ⟨_, _ | _ | _ | _ | _⟩ <;> rcases f' with _ | ⟨_, _ | _ | _ | _ | _⟩ <;>
    simp_all [Except.map, Entry.kind, Entry.rewrite]

end SameKinds

theorem fits_walkFrom {onLink : Location → List String → Except Refusal Found}
    (hlink : ∀ here names f, onLink here names = .ok f → f.Fits t) (ending : Ending)
    (here : Location) (names : List String) (f : Found)
    (h : t.walkFrom onLink ending here names = .ok f) : f.Fits t := by
  induction names generalizing here with
  | nil =>
    cases h
    exact .inl rfl
  | cons name rest ih =>
    unfold walkFrom at h
    split at h
    · exact ih here h
    · split at h
      · exact ih here.dropLast h
      · split at h
        · cases h
        · split at h
          · cases h
          · cases he : t.get? (here ++ [name]) with
            | none =>
              rw [he] at h
              dsimp only at h
              split at h <;> cases h
              exact he
            | some e =>
              rw [he] at h
              cases e with
              | directory => exact ih _ h
              | link target =>
                dsimp only at h
                split at h
                · cases h
                  exact .inr he
                · exact hlink _ _ _ h
              | _ =>
                dsimp only at h
                split at h <;> cases h
                exact .inr he

theorem fits_walk (ending : Ending) (links : Nat) (here : Location) (names : List String)
    (f : Found) (h : t.walk ending links here names = .ok f) : f.Fits t := by
  induction links generalizing here names f with
  | zero =>
    refine fits_walkFrom (fun _ _ _ h => ?_) ending here names f h
    cases h
  | succ links ih => exact fits_walkFrom ih ending here names f h

theorem fits_findSteps {dir : Location} {path : String} {ending : Ending} {steps : List String}
    {f : Found} (h : t.findSteps dir path ending steps = .ok f) : f.Fits t := by
  unfold findSteps at h
  split at h
  · cases h
  · split at h
    · cases h
    · exact fits_walk ending linkLimit _ steps f h

theorem fits_find {dir : Location} {path : String} {ending : Ending} {f : Found}
    (h : t.find dir path ending = .ok f) : f.Fits t :=
  fits_findSteps h

end FileTree

end PipelineShell
