import PipelineShell.Proofs.Copying.Targets

/-! What the opening of a target changes in the tree: the target, and the directories that are
missing on the way to it. The paths are seen from the directory in which they were opened, and their
links are followed. -/

namespace PipelineShell

open Attempt

namespace Path

/-- The first path is on the way along the other, or it has no names at all. -/
def Along (path q : String) : Prop :=
  (∀ c ∈ q.toList, c = '/') ∨ ∃ rest, path = q ++ "/" ++ rest

theorem Along.trans {path q r : String} (h : Along path q) (h' : Along q r) : Along path r := by
  rcases h' with hr | ⟨rest', rfl⟩
  · exact .inl hr
  · rcases h with hq | ⟨rest, rfl⟩
    · exact .inl fun c hc => hq c (by simp [hc])
    · exact .inr ⟨rest' ++ "/" ++ rest, by simp [String.append_assoc]⟩

theorem along_split (path : String) : Along path (split path).1 := by
  by_cases hmem : '/' ∈ path.toList
  · obtain ⟨as, bs, hpath, hbs⟩ := exists_last_slash hmem
    have hslashes : as.reverse.takeWhile (· == '/') =
        List.replicate (as.reverse.takeWhile (· == '/')).length '/' :=
      List.eq_replicate_of_mem fun c hc => by simpa using List.mem_takeWhile_imp hc
    have has := (List.takeWhile_append_dropWhile (p := (· == '/')) (l := as.reverse)).symm
    rw [hslashes] at has
    rw [split_eq hpath hbs]
    generalize as.reverse.dropWhile (· == '/') = rest at has ⊢
    generalize (as.reverse.takeWhile (· == '/')).length = k at has
    rw [List.reverse_eq_iff, List.reverse_append, List.reverse_replicate] at has
    cases rest with
    | nil =>
      refine .inl fun c hc => ?_
      have hc' : c ∈ as ∨ c = '/' := by simpa [or_comm] using hc
      rcases hc' with hc | hc
      · rw [has] at hc
        exact List.eq_of_mem_replicate (by simpa using hc)
      · exact hc
    | cons c rest =>
      refine .inr ⟨String.ofList (List.replicate k '/' ++ bs), ?_⟩
      have hswap : List.replicate k '/' ++ '/' :: bs = '/' :: (List.replicate k '/' ++ bs) := by
        rw [← List.singleton_append, ← List.append_assoc, ← List.replicate_succ',
          List.replicate_succ, List.cons_append]
      rw [← String.toList_inj, hpath, has]
      simp [hswap]
  · rw [split_of_not_mem hmem]
    exact .inl (by simp)

theorem along_parentAndName (path : String) : Along path (FileTree.parentAndName path).1 := by
  unfold FileTree.parentAndName
  dsimp only
  split
  · exact (along_split path).trans (along_split _)
  · exact along_split path

theorem filter_steps (path : String) : (steps path).filter (!·.isEmpty) = way path.toList := by
  have hnames : ∀ names : List String, names.dropLast ++ names.getLast?.toList = names := by
    intro names
    rcases List.eq_nil_or_concat names with rfl | ⟨before, last, rfl⟩ <;> simp
  unfold steps way
  dsimp only
  rw [List.filter_append, List.filter_filter]
  simp only [Bool.and_self]
  rw [← List.filter_append, hnames]
  rfl

theorem way_of_slashes {path : String} (h : ∀ c ∈ path.toList, c = '/') : way path.toList = [] := by
  rw [List.eq_replicate_of_mem h, ← List.nil_append (List.replicate _ _), way_slashes]
  simp [way, Text.piecesOf]

end Path

namespace FileTree

variable {t u : FileTree} {dir place l : Location} {path q : String} {append : Bool}

theorem walkFrom_of_missing {onLink onLink' : Location → List String → Except Refusal Found}
    (h : KeepsBut place t u) {parent : Location} {name : String} {slash : List String}
    (hslash : slash = [] ∨ slash = [""]) (hthere : u.get? (parent ++ [name]) = some .directory)
    (hlink : ∀ here names, onLink here names = .ok (.missing parent name) →
      onLink' here (names ++ slash) = .ok (.entry (parent ++ [name]) .directory))
    (here : Location) (names : List String)
    (hf : t.walkFrom onLink .itself here names = .ok (.missing parent name)) :
    u.walkFrom onLink' .followed here (names ++ slash) =
      .ok (.entry (parent ++ [name]) .directory) := by
  induction names generalizing here with
  | nil => cases hf
  | cons first rest ih =>
    rw [List.cons_append]
    by_cases hstay : first = "" ∨ first = "."
    · simp only [walkFrom, if_pos hstay] at hf ⊢
      exact ih here hf
    by_cases hup : first = ".."
    · simp only [walkFrom, if_neg hstay, if_pos hup] at hf ⊢
      exact ih here.dropLast hf
    by_cases hlong : longestName < first.utf8ByteSize
    · simp [walkFrom, hstay, hup, hlong] at hf
    have hentry := h (here ++ [first])
    simp only [walkFrom, if_neg hstay, if_neg hup, if_neg hlong, reduceCtorEq, false_and,
      if_false] at hf ⊢
    generalize t.get? (here ++ [first]) = e at hentry hf
    rcases e with _ | e
    · dsimp only at hf
      split at hf <;> cases hf
      next hlast =>
        subst hlast
        rw [hthere]
        rcases hslash with rfl | rfl <;> simp [walkFrom]
    · obtain ⟨e', he', hkind, -⟩ := hentry e rfl
      rw [he']
      cases e <;> cases e' <;> simp only [Entry.kind, Entry.rewrite, Entry.link.injEq,
        Entry.file.injEq, Entry.device.injEq, Entry.tool.injEq, reduceCtorEq, true_and] at hkind
      case directory.directory => exact ih _ hf
      case link.link =>
        subst hkind
        dsimp only at hf ⊢
        split at hf
        · cases hf
        · rw [if_neg (by simp), ← List.append_assoc]
          exact hlink _ _ hf
      all_goals
        dsimp only at hf
        split at hf <;> cases hf

theorem walk_of_missing (h : KeepsBut place t u) {parent : Location} {name : String}
    {slash : List String} (hslash : slash = [] ∨ slash = [""])
    (hthere : u.get? (parent ++ [name]) = some .directory) (links : Nat) (here : Location)
    (names : List String) (hf : t.walk .itself links here names = .ok (.missing parent name)) :
    u.walk .followed links here (names ++ slash) = .ok (.entry (parent ++ [name]) .directory) := by
  induction links generalizing here names with
  | zero =>
    exact walkFrom_of_missing h hslash hthere (fun _ _ hloop => by cases hloop) here names hf
  | succ links ih => exact walkFrom_of_missing h hslash hthere ih here names hf

theorem makeDirectory_eq_ok {a : Unit} (h : makeDirectory dir q t = .ok a u) :
    ∃ parent name, t.findSteps dir q .itself ((Path.steps q).filter (!·.isEmpty)) =
      .ok (.missing parent name) ∧ u = t.put (parent ++ [name]) .directory := by
  rw [makeDirectory_apply] at h
  split at h
  · generalize t.findSteps dir q .itself _ = f at h ⊢
    rcases f with r | ⟨place, e⟩ | ⟨parent, name⟩ <;> cases h
    exact ⟨parent, name, rfl, rfl⟩
  · cases h

theorem makeDirectory_eq_error {f : Fault} (h : makeDirectory dir q t = .error f u) : u = t := by
  rw [makeDirectory_apply] at h
  split at h
  · generalize t.findSteps dir q .itself _ = f at h
    rcases f with r | ⟨place, e⟩ | ⟨parent, name⟩ <;> cases h <;> rfl
  · cases h
    rfl

theorem openFile_eq_error {f : Fault} (h : openFile dir path append t = .error f u) : u = t := by
  rw [openFile_apply] at h
  split at h
  · generalize t.find dir path .made = f at h
    rcases f with r | ⟨place, e⟩ | ⟨parent, name⟩
    · cases h
      rfl
    · dsimp only at h
      split at h <;> cases h
      rfl
    · cases h
  · cases h
    rfl

theorem reach_of_makeDirectory {a : Unit} (h : makeDirectory dir q t = .ok a u) :
    ∃ l, u = t.put l .directory ∧ l ≠ [] ∧ t.get? l = none ∧
      u.reach dir q = .ok (l, .directory) ∧ ∃ c ∈ q.toList, c ≠ '/' := by
  obtain ⟨parent, name, hfind, rfl⟩ := makeDirectory_eq_ok h
  have hfree := fits_findSteps hfind
  have hthere : (t.put (parent ++ [name]) .directory).get? (parent ++ [name]) =
      some .directory := by
    rw [get?_put, if_pos ⟨by simp, rfl⟩]
  have hkeeps := keepsBut_put (parent ++ [name]) hfree .directory
  refine ⟨parent ++ [name], rfl, by simp, hfree, ?_, ?_⟩
  · obtain ⟨slash, hsteps, hslash⟩ := Path.steps_eq q
    rw [reach_ok_iff, find]
    unfold findSteps at hfind ⊢
    split at hfind
    · cases hfind
    · next hne =>
      split at hfind
      · cases hfind
      · next hlong =>
        rw [if_neg hne, if_neg hlong, hsteps]
        exact walk_of_missing hkeeps hslash hthere linkLimit _ _ hfind
  · by_contra hall
    push Not at hall
    rw [Path.filter_steps, Path.way_of_slashes hall] at hfind
    unfold findSteps at hfind
    split at hfind
    · cases hfind
    · split at hfind <;> cases hfind

/-- The place is that of a target, or of a directory that was missing on the way to one. -/
def Touched (W : Location → String → Prop) (t u : FileTree) (l : Location) : Prop :=
  ∃ dir path, W dir path ∧ ((∃ e, u.reach dir path = .ok (l, e) ∧ e ≠ .directory) ∨
    t.get? l = none ∧ ∃ q rest, path = q ++ "/" ++ rest ∧ u.reach dir q = .ok (l, .directory))

/-- Nothing has changed but targets and what was missing on the way to them. All else is where it
was, and paths lead where they led. -/
structure Touches (W : Location → String → Prop) (t u : FileTree) : Prop where
  there : ∀ l e, t.get? l = some e → ∃ e', u.get? l = some e' ∧ e'.kind = e.kind
  leads : ∀ dir path l e, t.reach dir path = .ok (l, e) →
    ∃ e', u.reach dir path = .ok (l, e') ∧ e'.kind = e.kind
  touched : ∀ l, u.get? l = t.get? l ∨ Touched W t u l

variable {W : Location → String → Prop}

theorem ne_directory_of_kind {e e' : Entry} (h : e'.kind = e.kind) (he : e ≠ .directory) :
    e' ≠ .directory := by
  rintro rfl
  exact he (kind_eq_directory.mp h.symm)

instance : IsPreorder FileTree (Touches W) where
  refl _ := ⟨fun _ e h => ⟨e, h, rfl⟩, fun _ _ _ e h => ⟨e, h, rfl⟩, fun _ => .inl rfl⟩
  trans t u v h h' := by
    refine ⟨fun l e he => ?_, fun dir path l e he => ?_, fun l => ?_⟩
    · obtain ⟨e', he', hkind⟩ := h.there l e he
      obtain ⟨e'', he'', hkind'⟩ := h'.there l e' he'
      exact ⟨e'', he'', hkind'.trans hkind⟩
    · obtain ⟨e', he', hkind⟩ := h.leads dir path l e he
      obtain ⟨e'', he'', hkind'⟩ := h'.leads dir path l e' he'
      exact ⟨e'', he'', hkind'.trans hkind⟩
    -- What was touched at first is a target yet, for no path is led elsewhere later. What is free in
    -- the middle was free before, for nothing goes.
    · rcases h'.touched l with hsame | ⟨dir, path, hW, hlast | ⟨hfree, hway⟩⟩
      · rcases h.touched l with
          hsame' | ⟨dir, path, hW, ⟨e, hreach, he⟩ | ⟨hfree, q, rest, hq, hreach⟩⟩
        · exact .inl (hsame.trans hsame')
        · obtain ⟨e', hreach', hkind⟩ := h'.leads dir path l e hreach
          exact .inr ⟨dir, path, hW, .inl ⟨e', hreach', ne_directory_of_kind hkind he⟩⟩
        · obtain ⟨e', hreach', hkind⟩ := h'.leads dir q l _ hreach
          cases kind_eq_directory.mp hkind
          exact .inr ⟨dir, path, hW, .inr ⟨hfree, q, rest, hq, hreach'⟩⟩
      · exact .inr ⟨dir, path, hW, .inl hlast⟩
      · refine .inr ⟨dir, path, hW, .inr ⟨?_, hway⟩⟩
        cases hget : t.get? l with
        | none => rfl
        | some e =>
          obtain ⟨e', he', -⟩ := h.there l e hget
          rw [hfree] at he'
          cases he'

theorem KeepsBut.touches (h : KeepsBut place t u)
    (hplace : ∀ l, u.get? l = t.get? l ∨ Touched W t u l) : Touches W t u where
  there l e he := by
    obtain ⟨e', he', hkind, -⟩ := h l e he
    exact ⟨e', he', hkind⟩
  leads dir path l e he := by
    obtain ⟨e', he', hkind, -⟩ := h.reach he
    exact ⟨e', he', hkind⟩
  touched := hplace

section

variable (hW : W dir path)

include hW

theorem touches_makeDirectory (hq : Path.Along path q) :
    Attempt.Keeps (Touches W) (makeDirectory dir q) := by
  intro t
  cases h : makeDirectory dir q t with
  | error f u =>
    rw [final_of_error h, makeDirectory_eq_error h]
    exact refl_of (Touches W) t
  | ok a u =>
    obtain ⟨l, rfl, hl, hfree, hreach, c, hc, hslash⟩ := reach_of_makeDirectory h
    obtain ⟨rest, hrest⟩ := hq.resolve_left fun hall => hslash (hall c hc)
    rw [final_of_ok h]
    refine (keepsBut_put l hfree .directory).touches fun l' => ?_
    by_cases hl' : l' = l
    · subst hl'
      exact .inr ⟨dir, path, hW, .inr ⟨hfree, q, rest, hrest, hreach⟩⟩
    · exact .inl (by rw [get?_put, if_neg fun h => hl' h.2])

theorem touches_of_openFile (h : openFile dir path append t = .ok place u)
    (hreach : ∀ e, u.get? place = some e → e.IsFile → u.reach dir path = .ok (place, e)) :
    Touches W t u := by
  refine (keepsBut_of_openFile h).touches fun l => ?_
  have htarget : ∀ e, u.get? place = some e → e.IsFile → Touched W t u place := fun e he hfile =>
    ⟨dir, path, hW, .inl ⟨e, hreach e he hfile, ne_directory_of_isFile hfile⟩⟩
  rcases openFile_eq_ok h with ⟨e, hfind, hne, rfl⟩ | ⟨parent, name, hfind, rfl, rfl⟩
  · have hthere := (fits_find hfind).resolve_left hne
    cases append with
    | true => exact .inl rfl
    | false =>
      rw [if_neg Bool.false_ne_true] at htarget ⊢
      by_cases hl : l = place ∧ e.IsFile
      · obtain ⟨rfl, bytes, x, rfl⟩ := hl
        exact .inr (htarget (.file .empty x) (by rw [get?_revise, if_pos rfl, hthere]; rfl)
          ⟨.empty, x, rfl⟩)
      · rw [get?_revise]
        split
        · next heq =>
          subst heq
          rw [hthere, Option.map_some, Entry.rewrite_of_not_isFile fun hfile => hl ⟨rfl, hfile⟩]
          exact .inl rfl
        · exact .inl rfl
  · by_cases hl : l = parent ++ [name]
    · subst hl
      exact .inr (htarget (.file .empty false) (by rw [get?_put, if_pos ⟨by simp, rfl⟩])
        ⟨.empty, false, rfl⟩)
    · exact .inl (by rw [get?_put, if_neg fun h => hl h.2])

/-- Be it opened or not, of a target no more is touched than itself and what was missing on the way
to it. -/
theorem touches_openTarget (append : Bool) :
    Attempt.Keeps (Touches W) (openTarget dir path append) := by
  have hmake : Attempt.Keeps (Touches W) (if Path.parent path ≠ "" then
      makeDirectories dir (Path.parent path) else pure ()) := by
    split
    · exact keeps_makeDirectoriesIn (P := Path.Along path)
        (fun _ hq => hq.trans (Path.along_parentAndName _)) (fun _ => touches_makeDirectory hW) _
        (Path.along_split path)
    · exact Attempt.keeps_pure _
  intro t
  cases h : openTarget dir path append t with
  | ok place u =>
    have hopen := h
    rw [openTarget_eq] at hopen
    obtain ⟨_, t', hmade, hfile⟩ := bind_eq_ok.mp hopen
    rw [final_of_ok h]
    refine trans_of (Touches W) (hmake.ok hmade)
      (touches_of_openFile hW hfile fun e he hisfile => ?_)
    exact reach_of_openTarget h he hisfile
  | error f u =>
    have hopen := h
    rw [openTarget_eq] at hopen
    rw [final_of_error h]
    rcases bind_eq_error.mp hopen with hmade | ⟨_, t', hmade, hfile⟩
    · exact hmake.error hmade
    · rw [openFile_eq_error hfile]
      exact hmake.ok hmade

end

/-- If there is a file at the place, the path of a target leads to it. -/
def Owned (W : Location → String → Prop) (t : FileTree) (place : Location) : Prop :=
  ∃ e, t.get? place = some e ∧ (e.IsFile → ∃ dir path e', W dir path ∧
    t.reach dir path = .ok (place, e') ∧ e' ≠ .directory)

theorem isFile_of_kind {e e' : Entry} (h : e'.kind = e.kind) (he : e'.IsFile) : e.IsFile := by
  obtain ⟨content, executable, rfl⟩ := he
  cases e <;> simp [Entry.kind, Entry.rewrite] at h
  exact ⟨_, _, rfl⟩

theorem Owned.touches (h : Owned W t place) (htouches : Touches W t u) : Owned W u place := by
  obtain ⟨e, he, hfile⟩ := h
  obtain ⟨e', he', hkind⟩ := htouches.there place e he
  refine ⟨e', he', fun hfile' => ?_⟩
  obtain ⟨dir, path, e₁, hW, hreach, hne⟩ := hfile (isFile_of_kind hkind hfile')
  obtain ⟨e₂, hreach', hkind'⟩ := htouches.leads dir path place e₁ hreach
  exact ⟨dir, path, e₂, hW, hreach', ne_directory_of_kind hkind' hne⟩

theorem owned_of_openTarget (hW : W dir path) (h : openTarget dir path append t = .ok place u) :
    Owned W u place := by
  obtain ⟨e, he⟩ := exists_get?_of_openTarget h
  exact ⟨e, he, fun hfile => ⟨dir, path, e, hW, reach_of_openTarget h he hfile,
    ne_directory_of_isFile hfile⟩⟩

theorem Owned.touches_revise (h : Owned W t place) (change : ByteArray → ByteArray) :
    Touches W t (t.revise place change) := by
  obtain ⟨e, he, hfile⟩ := h
  have hkeeps := keepsBut_revise place t change
  refine hkeeps.touches fun l => ?_
  by_cases hl : l = place ∧ e.IsFile
  · obtain ⟨rfl, hisfile⟩ := hl
    obtain ⟨dir, path, e', hW, hreach, hne⟩ := hfile hisfile
    obtain ⟨e'', hreach', hkind, -⟩ := hkeeps.reach hreach
    exact .inr ⟨dir, path, hW, .inl ⟨e'', hreach', ne_directory_of_kind hkind hne⟩⟩
  · rw [get?_revise]
    split
    · next heq =>
      subst heq
      rw [he, Option.map_some, Entry.rewrite_of_not_isFile fun hisfile => hl ⟨rfl, hisfile⟩]
      exact .inl rfl
    · exact .inl rfl

end FileTree

end PipelineShell
