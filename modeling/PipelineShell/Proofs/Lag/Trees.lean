import PipelineShell.Proofs.Companions
import PipelineShell.Proofs.Lag.Kinds

/-! Two trees, one of which is behind: at one place it is still to get what the other has there
already. Targets are opened alike in both. -/

namespace PipelineShell

/-- What one place is still to get. -/
structure Lag where
  place : Location
  entry : Entry
  change : ByteArray → ByteArray

namespace FileTree

variable {g : Option Lag} {t t' : FileTree}

def catchUp (t : FileTree) : Option Lag → FileTree
  | none => t
  | some h => t.revise h.place h.change

/-- Every place has the same in both trees. -/
structure SameEntries (t t' : FileTree) : Prop where
  blocks : t'.blockSize = t.blockSize
  there : ∀ l, t'.get? l = t.get? l

/-- The first tree is behind the second, if there is anything that it is still to get. -/
structure Lags (g : Option Lag) (t t' : FileTree) : Prop where
  blocks : t'.blockSize = t.blockSize
  stays : ∀ h ∈ g, t.get? h.place = some h.entry
  ahead : ∀ l, t'.get? l = (t.catchUp g).get? l

/-- Nothing is still to come to the place. -/
def Settled (g : Option Lag) (place : Location) : Prop :=
  ∀ h ∈ g, h.entry.IsFile → place ≠ h.place

theorem settled_none (place : Location) : Settled none place := nofun

theorem lags_none_iff : Lags none t t' ↔ SameEntries t t' :=
  ⟨fun h => ⟨h.blocks, h.ahead⟩, fun h => ⟨h.blocks, nofun, h.there⟩⟩

namespace Lags

variable (h : Lags g t t')

include h

theorem sameKinds : SameKinds t t' := by
  intro l
  rw [h.ahead l]
  cases g with
  | none => rfl
  | some lag => exact sameKinds_revise t lag.place lag.change l

theorem get?_of_settled {l : Location} (hl : Settled g l) : t'.get? l = t.get? l := by
  rw [h.ahead l]
  cases g with
  | none => rfl
  | some lag =>
    rw [catchUp, get?_revise]
    split
    · next hplace =>
      have hno : ¬lag.entry.IsFile := fun hfile => hl lag rfl hfile hplace
      have hstays := h.stays lag rfl
      rw [hplace, hstays, Option.map_some, Entry.rewrite_of_not_isFile hno]
    · rfl

theorem content {l : Location} (hl : Settled g l) : t'.content l = t.content l := by
  unfold FileTree.content
  rw [h.get?_of_settled hl]

theorem read {dir : Location} {path : String}
    (hpath : ∀ place e, t.reach dir path = .ok (place, e) → Settled g place) :
    t'.read dir path = t.read dir path := by
  unfold FileTree.read
  cases hreach : t.reach dir path with
  | error r => rw [h.sameKinds.reach_of_error hreach]
  | ok f =>
    obtain ⟨place, e⟩ := f
    obtain ⟨e', hreach', hkind⟩ := h.sameKinds.reach_of_ok hreach
    have hcontent := h.content (hpath place e hreach)
    rw [hreach']
    cases e <;> cases e' <;>
      first | exact congrArg Except.ok hcontent | rfl | simp [Entry.kind, Entry.rewrite] at hkind

theorem put {l : Location} (hl : t.get? l = none) (e : Entry) :
    Lags g (t.put l e) (t'.put l e) := by
  have hplace : ∀ lag ∈ g, lag.place ≠ l := by
    rintro lag hlag rfl
    rw [h.stays lag hlag] at hl
    cases hl
  refine ⟨h.blocks, fun lag hlag => ?_, fun l' => ?_⟩
  · rw [get?_put, if_neg (fun hl' => hplace lag hlag hl'.2)]
    exact h.stays lag hlag
  · rw [get?_put, h.ahead l']
    cases g with
    | none =>
      rw [catchUp, catchUp, get?_put]
    | some lag =>
      have hne := hplace lag rfl
      rw [catchUp, catchUp, get?_revise, get?_revise, get?_put]
      by_cases hl' : l' = l
      · subst hl'
        simp [Ne.symm hne]
      · simp [hl']

theorem revise {l : Location} (hl : Settled g l) (change : ByteArray → ByteArray) :
    Lags g (t.revise l change) (t'.revise l change) := by
  refine ⟨by rw [blockSize_revise, blockSize_revise, h.blocks], fun lag hlag => ?_, fun l' => ?_⟩
  · have hstays := h.stays lag hlag
    rw [get?_revise]
    split
    · next hplace =>
      have hno : ¬lag.entry.IsFile := fun hfile => hl lag hlag hfile hplace.symm
      rw [hstays, Option.map_some, Entry.rewrite_of_not_isFile hno]
    · exact hstays
  · rw [get?_revise, h.ahead l']
    cases g with
    | none => rw [catchUp, catchUp, get?_revise]
    | some lag =>
      rw [catchUp, catchUp, get?_revise, get?_revise, get?_revise]
      by_cases hplace : l = lag.place
      · have hno : ¬lag.entry.IsFile := fun hfile => hl lag rfl hfile hplace
        have hstays := h.stays lag rfl
        subst hplace
        by_cases hl' : l' = lag.place <;>
          simp [hl', hstays, Entry.rewrite_of_not_isFile hno]
      · by_cases hl' : l' = l
        · simp [hl', hplace]
        · simp [hl']

end Lags

section

open Attempt

variable {dir : Location} {path : String}

theorem makeDirectory_apply (dir : Location) (path : String) (t : FileTree) :
    makeDirectory dir path t = if isPath path then
      match t.findSteps dir path .itself ((Path.steps path).filter (!·.isEmpty)) with
      | .ok (.missing parent name) => .ok () (t.put (parent ++ [name]) .directory)
      | .ok (.entry ..) => .error (.refused .exists) t
      | .error r => .error (.refused r) t
    else .error .nulByte t := by
  cases hpath : isPath path with
  | false => simp [makeDirectory, hpath, Attempt.bind_apply]
  | true =>
    simp only [makeDirectory, hpath, Bool.not_true, Bool.false_eq_true, if_false, if_true,
      Attempt.bind_apply, Attempt.get_apply]
    cases t.findSteps dir path .itself ((Path.steps path).filter (!·.isEmpty)) with
    | error r => rfl
    | ok found => cases found <;> rfl

theorem lags_makeDirectory (dir : Location) (path : String) :
    Respects (Lags g) (makeDirectory dir path) := by
  intro t t' h
  have hfind := h.sameKinds.findSteps dir path .itself ((Path.steps path).filter (!·.isEmpty))
  rw [makeDirectory_apply, makeDirectory_apply]
  split
  · have hfits : ∀ f, t.findSteps dir path .itself ((Path.steps path).filter (!·.isEmpty)) =
        .ok f → f.Fits t := fun _ => fits_findSteps
    generalize t.findSteps _ _ _ _ = f at hfind hfits ⊢
    generalize t'.findSteps _ _ _ _ = f' at hfind ⊢
    rcases f with r | ⟨place, e⟩ | ⟨parent, name⟩ <;>
      rcases f' with r' | ⟨place', e'⟩ | ⟨parent', name'⟩ <;>
      simp only [Except.map, Found.kind, Except.ok.injEq, Except.error.injEq, Found.entry.injEq,
        Found.missing.injEq, reduceCtorEq] at hfind
    case error.error =>
      subst hfind
      exact .error h
    case ok.entry.ok.entry => exact .error h
    case ok.missing.ok.missing =>
      obtain ⟨rfl, rfl⟩ := hfind
      exact .ok (h.put (hfits _ rfl) _)
  · exact .error h

theorem lags_makeHere (dir : Location) (path : String) :
    Respects (Lags g) (makeHere dir path) := by
  refine (lags_makeDirectory dir path).handle fun f y hy => ?_
  cases f with
  | nulByte => cases hy
  | refused r =>
    cases hy
    refine respects_get (fun t t' h => ?_) fun t => ?_
    · rw [h.sameKinds.isDirectory]
    · split
      · exact respects_pure _
      · exact respects_throw _

theorem lags_makeDirectoriesIn (dir : Location) (depth : Nat) (path : String) :
    Respects (Lags g) (makeDirectoriesIn dir depth path) := by
  induction depth generalizing path with
  | zero => exact respects_pure _
  | succ depth ih =>
    have habove : Respects (Lags g) (makeAbove dir depth (parentAndName path).1) := by
      refine (ih _).handle fun f y hy => ?_
      split at hy <;> cases hy
      exact respects_pure _
    rw [makeDirectoriesIn_succ]
    refine respects_get (fun t t' h => ?_) fun t => ?_
    · simp only [h.sameKinds.entry?_eq_none]
    · split
      · refine habove.bind fun _ => ?_
        split
        · exact respects_pure _
        · exact lags_makeHere dir path
      · exact lags_makeHere dir path

theorem openFile_apply (dir : Location) (path : String) (append : Bool) (t : FileTree) :
    openFile dir path append t = if isPath path then
      match t.find dir path .made with
      | .ok (.entry place e) =>
        if e = .directory then .error (.refused .isDirectory) t
        else .ok place (if append then t else t.revise place fun _ => .empty)
      | .ok (.missing parent name) =>
        .ok (parent ++ [name]) (t.put (parent ++ [name]) (.file .empty false))
      | .error r => .error (.refused r) t
    else .error .nulByte t := by
  cases hpath : isPath path with
  | false => simp [openFile, hpath, Attempt.bind_apply]
  | true =>
    simp only [openFile, hpath, Bool.not_true, Bool.false_eq_true, if_false, if_true,
      Attempt.bind_apply, Attempt.get_apply]
    cases t.find dir path .made with
    | error r => rfl
    | ok found =>
      cases found with
      | missing parent name => rfl
      | entry place e => cases e <;> cases append <;> rfl

theorem kind_eq_directory {e : Entry} : e.kind = .directory ↔ e = .directory := by
  cases e <;> simp [Entry.kind, Entry.rewrite]

theorem agree_openFile {append : Bool} (h : Lags g t t')
    (hplace : ∀ place u, openFile dir path append t = .ok place u → Settled g place) :
    Agree (Lags g) (Lags g) (openFile dir path append t) (openFile dir path append t') := by
  have hfind := h.sameKinds.find dir path .made
  rw [openFile_apply] at hplace
  rw [openFile_apply, openFile_apply]
  split
  · next hpath =>
    rw [if_pos hpath] at hplace
    have hfits : ∀ f, t.find dir path .made = .ok f → f.Fits t := fun _ => fits_find
    generalize t.find dir path .made = f at hfind hfits hplace ⊢
    generalize t'.find dir path .made = f' at hfind ⊢
    rcases f with r | ⟨place, e⟩ | ⟨parent, name⟩ <;>
      rcases f' with r' | ⟨place', e'⟩ | ⟨parent', name'⟩ <;>
      simp only [Except.map, Found.kind, Except.ok.injEq, Except.error.injEq, Found.entry.injEq,
        Found.missing.injEq, reduceCtorEq] at hfind
    case error.error =>
      subst hfind
      exact .error h
    case ok.entry.ok.entry =>
      obtain ⟨rfl, hkind⟩ := hfind
      have hdir : e' = .directory ↔ e = .directory := by
        rw [← kind_eq_directory, hkind, kind_eq_directory]
      by_cases he : e = .directory
      · simp only [if_pos he, if_pos (hdir.mpr he)]
        exact .error h
      · have he' : e' ≠ .directory := fun hd => he (hdir.mp hd)
        simp only [if_neg he, if_neg he'] at hplace ⊢
        cases append with
        | true => exact .ok h
        | false => exact .ok (h.revise (hplace _ _ rfl) _)
    case ok.missing.ok.missing =>
      obtain ⟨rfl, rfl⟩ := hfind
      exact .ok (h.put (hfits _ rfl) _)
  · exact .error h

theorem openTarget_eq (dir : Location) (path : String) (append : Bool) :
    openTarget dir path append =
      (if Path.parent path ≠ "" then makeDirectories dir (Path.parent path) else pure ()) >>=
        fun _ => openFile dir path append := by
  unfold openTarget
  dsimp only
  split <;> rfl

theorem agree_openTarget {append : Bool} (h : Lags g t t')
    (hplace : ∀ place u, openTarget dir path append t = .ok place u → Settled g place) :
    Agree (Lags g) (Lags g) (openTarget dir path append t) (openTarget dir path append t') := by
  have hmake : Respects (Lags g) (if Path.parent path ≠ "" then
      makeDirectories dir (Path.parent path) else pure ()) := by
    split
    · exact lags_makeDirectoriesIn dir _ _
    · exact respects_pure _
  rw [openTarget_eq] at hplace ⊢
  have hmade := hmake t t' h
  rw [Attempt.bind_apply, Attempt.bind_apply]
  rw [Attempt.bind_apply] at hplace
  generalize (if Path.parent path ≠ "" then
      makeDirectories dir (Path.parent path) else pure () : Change Unit) t = x at hmade hplace ⊢
  generalize (if Path.parent path ≠ "" then
      makeDirectories dir (Path.parent path) else pure () : Change Unit) t' = y at hmade ⊢
  cases hmade with
  | ok h => exact agree_openFile h hplace
  | error h => exact .error h

theorem exists_get?_of_openFile {append : Bool} {place : Location} {u : FileTree}
    (h : openFile dir path append t = .ok place u) : ∃ e, u.get? place = some e := by
  rw [openFile_apply] at h
  split at h
  · have hfits : ∀ f, t.find dir path .made = .ok f → f.Fits t := fun _ => fits_find
    generalize t.find dir path .made = f at hfits h
    rcases f with r | ⟨place', e⟩ | ⟨parent, name⟩
    · cases h
    · dsimp only at h
      split at h
      · cases h
      · next he =>
        have hthere := (hfits _ rfl).resolve_left he
        cases h
        cases append with
        | true => exact ⟨e, hthere⟩
        | false => exact ⟨e.rewrite fun _ => .empty, by simp [get?_revise, hthere]⟩
    · cases h
      exact ⟨.file .empty false, by simp [get?_put]⟩
  · cases h

theorem exists_get?_of_openTarget {append : Bool} {place : Location} {u : FileTree}
    (h : openTarget dir path append t = .ok place u) : ∃ e, u.get? place = some e := by
  rw [openTarget_eq] at h
  obtain ⟨_, t₁, _, hfile⟩ := Attempt.bind_eq_ok.mp h
  exact exists_get?_of_openFile hfile

theorem agree_openIn {d : Destination} (h : Lags g t t')
    (hplace : ∀ place u, d.openIn dir t = .ok (some place) u → Settled g place) :
    Agree (Lags g) (Lags g) (d.openIn dir t) (d.openIn dir t') := by
  unfold Destination.openIn at hplace ⊢
  cases hd : d.target with
  | none => exact .ok h
  | some path =>
    simp only [hd] at hplace
    refine (agree_openTarget h fun place u hopen => ?_).bind fun place _ _ h => .ok h
    exact hplace place u (Attempt.bind_of_ok hopen _)

theorem exists_get?_of_openIn {d : Destination} {place : Location} {u : FileTree}
    (h : d.openIn dir t = .ok (some place) u) : ∃ e, u.get? place = some e := by
  unfold Destination.openIn at h
  cases hd : d.target with
  | none =>
    rw [hd] at h
    cases h
  | some path =>
    rw [hd] at h
    obtain ⟨opened, u', hopen, hp⟩ := Attempt.bind_eq_ok.mp h
    cases hp
    exact exists_get?_of_openTarget hopen

end

end FileTree

end PipelineShell
