import PipelineShell.Proofs.Lag.Trees

/-! What is left alone when a target is opened and written to. The files that were there stay where
they are, and only the target has other bytes; the path that was opened leads to it. -/

namespace PipelineShell.FileTree

open Attempt

variable {place l : Location} {t u : FileTree} {dir : Location} {path : String} {append : Bool}

/-- All that was there is still there, and only the file at one place may have other bytes. -/
def KeepsBut (place : Location) (t u : FileTree) : Prop :=
  ∀ l e, t.get? l = some e →
    ∃ e', u.get? l = some e' ∧ e'.kind = e.kind ∧ (l ≠ place → e' = e)

instance : IsPreorder FileTree (KeepsBut place) where
  refl _ _ e h := ⟨e, h, rfl, fun _ => rfl⟩
  trans _ _ _ h h' l e he := by
    obtain ⟨e', he', hkind, hsame⟩ := h l e he
    obtain ⟨e'', he'', hkind', hsame'⟩ := h' l e' he'
    exact ⟨e'', he'', hkind'.trans hkind, fun hl => (hsame' hl).trans (hsame hl)⟩

theorem keepsBut_put (place : Location) (h : t.get? l = none) (e : Entry) :
    KeepsBut place t (t.put l e) := by
  intro l' e' he
  refine ⟨e', ?_, rfl, fun _ => rfl⟩
  rw [get?_put, if_neg]
  · exact he
  · rintro ⟨-, rfl⟩
    rw [h] at he
    cases he

theorem keepsBut_revise (place : Location) (t : FileTree) (change : ByteArray → ByteArray) :
    KeepsBut place t (t.revise place change) := by
  intro l e he
  rw [get?_revise, he]
  split
  · next hl => exact ⟨_, rfl, Entry.kind_rewrite change e, fun hne => absurd hl hne⟩
  · exact ⟨e, rfl, rfl, fun _ => rfl⟩

theorem keepsBut_makeDirectory (place dir : Location) (path : String) :
    Attempt.Keeps (KeepsBut place) (makeDirectory dir path) := by
  unfold makeDirectory
  cases isPath path with
  | false => exact Attempt.keeps_throw _
  | true =>
    refine Attempt.keeps_get fun t => ?_
    cases hfind : t.findSteps dir path .itself ((Path.steps path).filter (!·.isEmpty)) with
    | error r => exact Attempt.keeps_throw _ t
    | ok found =>
      cases found with
      | entry l e => exact Attempt.keeps_throw _ t
      | missing parent name => exact keepsBut_put place (fits_findSteps hfind) _

theorem openFile_eq_ok (h : openFile dir path append t = .ok place u) :
    (∃ e, t.find dir path .made = .ok (.entry place e) ∧ e ≠ .directory ∧
      u = if append then t else t.revise place fun _ => .empty) ∨
    ∃ parent name, t.find dir path .made = .ok (.missing parent name) ∧
      place = parent ++ [name] ∧ u = t.put place (.file .empty false) := by
  rw [openFile_apply] at h
  split at h
  · generalize t.find dir path .made = f at h ⊢
    rcases f with r | ⟨l, e⟩ | ⟨parent, name⟩
    · cases h
    · dsimp only at h
      split at h
      · cases h
      · next he =>
        cases h
        exact .inl ⟨e, rfl, he, rfl⟩
    · cases h
      exact .inr ⟨parent, name, rfl, rfl, rfl⟩
  · cases h

theorem keepsBut_of_openFile (h : openFile dir path append t = .ok place u) :
    KeepsBut place t u := by
  rcases openFile_eq_ok h with ⟨e, -, -, rfl⟩ | ⟨parent, name, hfind, rfl, rfl⟩
  · cases append with
    | true => exact refl_of (KeepsBut place) t
    | false => exact keepsBut_revise place t _
  · exact keepsBut_put _ (fits_find hfind) _

theorem openTarget_eq_ok (h : openTarget dir path append t = .ok place u) :
    ∃ t', KeepsBut place t t' ∧ openFile dir path append t' = .ok place u := by
  rw [openTarget_eq] at h
  obtain ⟨_, t', hmade, hfile⟩ := Attempt.bind_eq_ok.mp h
  refine ⟨t', ?_, hfile⟩
  split at hmade
  · exact (keeps_makeDirectories (keepsBut_makeDirectory place dir) _).ok hmade
  · cases hmade
    exact refl_of (KeepsBut place) t

theorem isPath_of_openTarget (h : openTarget dir path append t = .ok place u) :
    isPath path = true := by
  obtain ⟨t', -, hfile⟩ := openTarget_eq_ok h
  rw [openFile_apply] at hfile
  split at hfile
  · assumption
  · cases hfile

theorem keepsBut_of_openTarget (h : openTarget dir path append t = .ok place u) :
    KeepsBut place t u := by
  obtain ⟨t', hmade, hfile⟩ := openTarget_eq_ok h
  exact trans_of (KeepsBut place) hmade (keepsBut_of_openFile hfile)

/-- What comes of a walk in the later tree: the same entry, or the file that was missing. -/
def Refinds (place : Location) (u : FileTree) (x : Except Refusal Found) : Found → Prop
  | .entry l e => ∃ e', x = .ok (.entry l e') ∧ e'.kind = e.kind ∧ (l ≠ place → e' = e)
  | .missing dir name => ∀ e, u.get? (dir ++ [name]) = some e → e.IsFile →
      x = .ok (.entry (dir ++ [name]) e)

namespace KeepsBut

variable (h : KeepsBut place t u)

include h

theorem walkFrom {onLink onLink' : Location → List String → Except Refusal Found}
    (hlink : ∀ here names f, onLink here names = .ok f →
      Refinds place u (onLink' here names) f) {ending : Ending} (hend : ending ≠ .itself)
    (here : Location) (names : List String) (f : Found)
    (hf : t.walkFrom onLink ending here names = .ok f) :
    Refinds place u (u.walkFrom onLink' .followed here names) f := by
  -- Both walks come upon the same entries, up to the bytes of one file; that one, if it was missing,
  -- stands at the end of the names.
  induction names generalizing here with
  | nil =>
    cases hf
    exact ⟨.directory, rfl, rfl, fun _ => rfl⟩
  | cons name rest ih =>
    by_cases hstay : name = "" ∨ name = "."
    · simp only [FileTree.walkFrom, if_pos hstay] at hf ⊢
      exact ih here hf
    by_cases hup : name = ".."
    · simp only [FileTree.walkFrom, if_neg hstay, if_pos hup] at hf ⊢
      exact ih here.dropLast hf
    by_cases hmade : ending = .made ∧ rest ≠ [] ∧ rest.all (· = "")
    · simp only [FileTree.walkFrom, if_neg hstay, if_neg hup, if_pos hmade] at hf
      cases hf
    by_cases hlong : longestName < name.utf8ByteSize
    · simp only [FileTree.walkFrom, if_neg hstay, if_neg hup, if_neg hmade, if_pos hlong] at hf
      cases hf
    have hfollowed : ¬(Ending.followed = .made ∧ rest ≠ [] ∧ rest.all (· = "")) := by simp
    have hentry := h (here ++ [name])
    simp only [FileTree.walkFrom, if_neg hstay, if_neg hup, if_neg hmade, if_neg hfollowed,
      if_neg hlong] at hf ⊢
    generalize t.get? (here ++ [name]) = e at hentry hf
    rcases e with _ | e
    · dsimp only at hf
      split at hf <;> cases hf
      next hlast =>
        intro e' he' hfile
        obtain ⟨content, executable, rfl⟩ := hfile
        simp only [he', if_pos hlast]
    · obtain ⟨e', he', hkind, hsame⟩ := hentry e rfl
      rw [he']
      cases e <;> cases e' <;> simp only [Entry.kind, Entry.rewrite, Entry.link.injEq,
        Entry.file.injEq, Entry.device.injEq, Entry.tool.injEq, reduceCtorEq, true_and] at hkind
      case directory.directory => exact ih _ hf
      case link.link =>
        subst hkind
        dsimp only at hf ⊢
        rw [if_neg fun hlast => hend hlast.2] at hf
        rw [if_neg (by simp)]
        exact hlink _ _ _ hf
      case file.file =>
        dsimp only at hf ⊢
        split at hf <;> cases hf
        next hlast => exact ⟨_, if_pos hlast, by simp [Entry.kind, Entry.rewrite, hkind], hsame⟩
      case device.device =>
        dsimp only at hf ⊢
        split at hf <;> cases hf
        next hlast => exact ⟨_, if_pos hlast, by simp [hkind], hsame⟩
      case tool.tool =>
        dsimp only at hf ⊢
        split at hf <;> cases hf
        next hlast => exact ⟨_, if_pos hlast, by simp [hkind], hsame⟩

theorem walk {ending : Ending} (hend : ending ≠ .itself) (links : Nat) (here : Location)
    (names : List String) (f : Found) (hf : t.walk ending links here names = .ok f) :
    Refinds place u (u.walk .followed links here names) f := by
  induction links generalizing here names f with
  | zero => exact h.walkFrom (fun _ _ _ hloop => by cases hloop) hend here names f hf
  | succ links ih => exact h.walkFrom ih hend here names f hf

theorem find {ending : Ending} (hend : ending ≠ .itself) {f : Found}
    (hf : t.find dir path ending = .ok f) : Refinds place u (u.find dir path .followed) f := by
  unfold FileTree.find findSteps at hf ⊢
  split at hf
  · cases hf
  · next hpath =>
    rw [if_neg hpath]
    split at hf
    · cases hf
    · next hlong =>
      rw [if_neg hlong]
      exact h.walk hend linkLimit _ _ f hf

theorem reach {e : Entry} (hr : t.reach dir path = .ok (l, e)) :
    ∃ e', u.reach dir path = .ok (l, e') ∧ e'.kind = e.kind ∧ (l ≠ place → e' = e) := by
  unfold FileTree.reach at hr ⊢
  split at hr
  · next l' e' hfind =>
    cases hr
    obtain ⟨e'', hfind', hkind, hsame⟩ := h.find (by simp) hfind
    exact ⟨e'', by rw [hfind'], hkind, hsame⟩
  · cases hr
  · cases hr

end KeepsBut

theorem get?_of_reach {e : Entry} (h : t.reach dir path = .ok (l, e)) (he : e ≠ .directory) :
    t.get? l = some e := by
  unfold reach at h
  split at h
  · next l' e' hfind =>
    cases h
    exact (fits_find hfind).resolve_left he
  · cases h
  · cases h

theorem ne_directory_of_isFile {e : Entry} (h : e.IsFile) : e ≠ .directory := by
  obtain ⟨content, executable, rfl⟩ := h
  nofun

theorem reach_of_openTarget {e : Entry} (h : openTarget dir path append t = .ok place u)
    (hthere : u.get? place = some e) (he : e.IsFile) : u.reach dir path = .ok (place, e) := by
  obtain ⟨t', -, hfile⟩ := openTarget_eq_ok h
  have hkeeps := keepsBut_of_openFile hfile
  rcases openFile_eq_ok hfile with ⟨e₀, hfind, hne, -⟩ | ⟨parent, name, hfind, rfl, -⟩
  · obtain ⟨e', hfind', hkind, -⟩ := hkeeps.find (by simp) hfind
    have hne' : e' ≠ .directory := fun hd => hne (kind_eq_directory.mp (by rw [← hkind, hd]; rfl))
    have hget := (fits_find hfind').resolve_left hne'
    rw [hthere] at hget
    cases hget
    rw [reach, hfind']
  · rw [reach, hkeeps.find (by simp) hfind e hthere he]

theorem read_of_reach {bytes : ByteArray} {executable : Bool}
    (h : t.reach dir path = .ok (l, .file bytes executable)) : t.read dir path = .ok bytes := by
  have hget := get?_of_reach h nofun
  rw [read, h]
  simp [content, hget]

theorem reach_of_keepsBut {v : FileTree} {e e' : Entry}
    (h : openTarget dir path append t = .ok place u) (hthere : u.get? place = some e)
    (he : e.IsFile) (hv : KeepsBut place u v) (hget : v.get? place = some e') :
    v.reach dir path = .ok (place, e') := by
  obtain ⟨e'', hreach, hkind, -⟩ := hv.reach (reach_of_openTarget h hthere he)
  have hne : e'' ≠ .directory := by
    intro hd
    rw [hd] at hkind
    exact ne_directory_of_isFile he (kind_eq_directory.mp hkind.symm)
  have hget' := get?_of_reach hreach hne
  rw [hget] at hget'
  cases hget'
  exact hreach

/-- There are the same bytes to read at every place. -/
def SameContent (t u : FileTree) : Prop :=
  ∀ l, u.content l = t.content l

instance : IsPreorder FileTree SameContent where
  refl _ _ := rfl
  trans _ _ _ h h' l := (h' l).trans (h l)

theorem sameContent_put (h : t.get? l = none) {e : Entry}
    (he : ∀ bytes x, e = .file bytes x → bytes = .empty) : SameContent t (t.put l e) := by
  intro l'
  by_cases hl : l' ≠ [] ∧ l' = l
  · rw [content, content, get?_put, if_pos hl, hl.2, h]
    cases e with
    | file bytes x => exact he bytes x rfl
    | _ => rfl
  · rw [content, content, get?_put, if_neg hl]

theorem sameContent_makeDirectory (dir : Location) (path : String) :
    Attempt.Keeps SameContent (makeDirectory dir path) := by
  unfold makeDirectory
  cases isPath path with
  | false => exact Attempt.keeps_throw _
  | true =>
    refine Attempt.keeps_get fun t => ?_
    cases hfind : t.findSteps dir path .itself ((Path.steps path).filter (!·.isEmpty)) with
    | error r => exact Attempt.keeps_throw _ t
    | ok found =>
      cases found with
      | entry l e => exact Attempt.keeps_throw _ t
      | missing parent name => exact sameContent_put (fits_findSteps hfind) nofun

theorem content_of_openTarget (h : openTarget dir path append t = .ok place u) :
    u.content place = if append then t.content place else .empty := by
  rw [openTarget_eq] at h
  obtain ⟨_, t', hmade, hfile⟩ := Attempt.bind_eq_ok.mp h
  have hsame : SameContent t t' := by
    split at hmade
    · exact (keeps_makeDirectories (sameContent_makeDirectory dir) _).ok hmade
    · cases hmade
      exact refl_of SameContent t
  rcases openFile_eq_ok hfile with ⟨e, -, -, rfl⟩ | ⟨parent, name, hfind, rfl, rfl⟩
  · cases append with
    | true => exact hsame place
    | false =>
      simp only [Bool.false_eq_true, if_false, content, get?_revise, if_true]
      cases t'.get? place with
      | none => rfl
      | some e => cases e <;> rfl
  · have hfree : (t.content (parent ++ [name])) = .empty := by
      rw [← hsame, content, fits_find hfind]
    have hput := sameContent_put (e := .file .empty false) (fits_find hfind)
      fun bytes x h => (Entry.file.inj h).1.symm
    rw [hput, hsame, hfree, ite_self]

theorem isEmpty_of_openTarget {old : ByteArray} {x : Bool}
    (h : openTarget dir path false t = .ok place u)
    (hold : u.get? place = some (.file old x)) : old = .empty := by
  have hcontent := content_of_openTarget h
  rwa [content, hold] at hcontent

end PipelineShell.FileTree
