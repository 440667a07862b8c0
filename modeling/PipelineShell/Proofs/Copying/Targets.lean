import Mathlib.Data.List.Basic
import Mathlib.Data.List.TakeWhile
import PipelineShell.Proofs.Copying.Opened
import PipelineShell.Proofs.Lookup.Walks

/-! Which targets can be opened. The directories on the way to a file are there, and are left as
they are; so nothing stands in the way of a path that leads to a file, or to a free name. -/

namespace PipelineShell

namespace Path

theorem way_slash (cs : List Char) : way (cs ++ ['/']) = way cs := by
  simp [way, Text.piecesOf_append, Text.piecesOf]

theorem way_slashes (cs : List Char) (k : Nat) : way (cs ++ List.replicate k '/') = way cs := by
  induction k with
  | zero => simp
  | succ k ih => rw [List.replicate_succ', ← List.append_assoc, way_slash, ih]

theorem steps_ofList {cs : List Char} (hne : cs ≠ []) (hlast : cs.getLast? ≠ some '/') :
    steps (String.ofList cs) = way cs := by
  by_cases hmem : '/' ∈ cs
  · obtain ⟨as, bs, rfl, hbs⟩ := exists_last_slash hmem
    have hbsne : bs ≠ [] := by
      rintro rfl
      simp at hlast
    rw [steps_append (String.toList_ofList) hbs, way_append hbsne hbs]
  · rw [steps_of_not_mem (by rwa [String.toList_ofList]), way_of_not_mem hne hmem]

theorem split_eq {path : String} {as bs : List Char} (h : path.toList = as ++ '/' :: bs)
    (hbs : '/' ∉ bs) : split path =
      (String.ofList (if (as.reverse.dropWhile (· == '/')).isEmpty then '/' :: as.reverse
        else as.reverse.dropWhile (· == '/')).reverse, String.ofList bs) := by
  have hback : path.toList.reverse = bs.reverse ++ '/' :: as.reverse := by simp [h]
  have hname : ∀ c ∈ bs.reverse, (c != '/') = true := by
    intro c hc
    rw [bne_iff_ne]
    rintro rfl
    exact hbs (List.mem_reverse.mp hc)
  simp [split, hback, List.takeWhile_append_of_pos hname, List.dropWhile_append_of_pos hname]

theorem split_of_not_mem {path : String} (h : '/' ∉ path.toList) : split path = ("", path) := by
  have hall : ∀ c ∈ path.toList.reverse, (c != '/') = true := by
    intro c hc
    rw [bne_iff_ne]
    rintro rfl
    exact h (List.mem_reverse.mp hc)
  have htake : path.toList.reverse.takeWhile (· != '/') = path.toList.reverse :=
    List.takeWhile_eq_self_iff.mpr hall
  simp [split, htake, List.dropWhile_eq_nil_iff.mpr hall]

/-- The way along a path is that of its directory part, and then the name. A slash behind the
directory part adds nothing to it. -/
theorem steps_split {path : String} (hne : (split path).1 ≠ "") : ∃ names slash,
    steps (split path).1 = names ++ slash ∧ steps path = names ++ [(split path).2] ∧
      (slash = [] ∨ slash = [""]) ∧ ∃ behind, path = (split path).1 ++ behind := by
  by_cases hmem : '/' ∈ path.toList
  · obtain ⟨as, bs, hpath, hbs⟩ := exists_last_slash hmem
    have hsteps := steps_append hpath hbs
    have hslashes : as.reverse.takeWhile (· == '/') =
        List.replicate (as.reverse.takeWhile (· == '/')).length '/' :=
      List.eq_replicate_of_mem fun c hc => by simpa using List.mem_takeWhile_imp hc
    have has := (List.takeWhile_append_dropWhile (p := (· == '/')) (l := as.reverse)).symm
    have hlast := List.head?_dropWhile_not (· == '/') as.reverse
    rw [hslashes] at has
    rw [split_eq hpath hbs]
    generalize as.reverse.dropWhile (· == '/') = rest at has hlast ⊢
    generalize (as.reverse.takeWhile (· == '/')).length = k at has
    rw [List.reverse_eq_iff, List.reverse_append, List.reverse_replicate] at has
    cases rest with
    | nil =>
      have hdir : (String.ofList ('/' :: as.reverse).reverse).toList = as ++ '/' :: [] := by simp
      refine ⟨way as, [""], steps_append hdir List.not_mem_nil, hsteps, .inr rfl,
        String.ofList bs, ?_⟩
      rw [← String.toList_inj]
      simp [hpath]
    | cons c rest =>
      have hend : (c :: rest).reverse.getLast? ≠ some '/' := by
        simpa using hlast
      have hway : way as = way (c :: rest).reverse := by rw [has, way_slashes]
      refine ⟨way as, [], ?_, hsteps, .inl rfl, String.ofList (List.replicate k '/' ++ '/' :: bs),
        ?_⟩
      · rw [hway, List.append_nil]
        exact steps_ofList (by simp) hend
      · rw [← String.toList_inj, hpath, has]
        simp
  · exact absurd (congrArg Prod.fst (split_of_not_mem hmem)) hne

theorem steps_eq (path : String) : ∃ slash,
    steps path = (steps path).filter (!·.isEmpty) ++ slash ∧ (slash = [] ∨ slash = [""]) := by
  unfold steps
  dsimp only
  rw [List.filter_append, List.filter_filter]
  generalize (Text.pieces '/' path).getLast? = last
  cases last with
  | none => exact ⟨[], by simp, .inl rfl⟩
  | some name =>
    by_cases hname : name = ""
    · exact ⟨[""], by simp [hname], .inr rfl⟩
    · exact ⟨[], by simp [hname], .inl rfl⟩

end Path

namespace FileTree

variable {t : FileTree} {dir place : Location} {path : String}

/-- What comes of a path with another ending, if it leads there when all links are followed: the
same, or a link, or nothing if a file was to be made where a directory is. -/
def Likewise (ending : Ending) (f : Found) (x : Except Refusal Found) : Prop :=
  x = .ok f ∨ (ending = .itself ∧ ∃ l target, x = .ok (.entry l (.link target))) ∨
    ending = .made ∧ ∃ l, f = .entry l .directory

theorem exists_directory_of_slash {walk : Location → List String → Except Refusal Found}
    (hpass : t.Passes walk) {here : Location} {names : List String} {f : Found}
    (hf : walk here (names ++ [""]) = .ok f) : ∃ l, f = .entry l .directory := by
  obtain ⟨l, left, hwalk⟩ := hpass here names [""] f (List.cons_ne_nil _ _) hf
  have hdir : t.walk .followed left l [""] = .ok (.entry l .directory) := by
    cases left <;> simp [FileTree.walk, walkFrom]
  rw [hwalk, hdir] at hf
  exact ⟨l, (Except.ok.inj hf).symm⟩

theorem likewise_walkFrom {onLink onLink' : Location → List String → Except Refusal Found}
    {ending : Ending} (hpass : t.Passes (t.walkFrom onLink .followed))
    (hlink : ∀ here names f, onLink here names = .ok f → Likewise ending f (onLink' here names))
    (here : Location) (names : List String) (f : Found)
    (hf : t.walkFrom onLink .followed here names = .ok f) :
    Likewise ending f (t.walkFrom onLink' ending here names) := by
  induction names generalizing here with
  | nil =>
    cases hf
    exact .inl rfl
  | cons name rest ih =>
    by_cases hstay : name = "" ∨ name = "."
    · simp only [walkFrom, if_pos hstay] at hf ⊢
      exact ih here hf
    by_cases hup : name = ".."
    · simp only [walkFrom, if_neg hstay, if_pos hup] at hf ⊢
      exact ih here.dropLast hf
    by_cases hmade : ending = .made ∧ rest ≠ [] ∧ rest.all (· = "")
    · -- No file is made under a name with a slash behind it, but that leads to a directory.
      obtain ⟨hending, hne, hblank⟩ := hmade
      have hend : rest.getLast hne = "" := by
        simpa using List.all_eq_true.mp hblank _ (List.getLast_mem hne)
      have hlast : rest = rest.dropLast ++ [""] := by
        rw [← hend, List.dropLast_concat_getLast hne]
      rw [hlast, ← List.cons_append] at hf
      exact .inr (.inr ⟨hending, exists_directory_of_slash hpass hf⟩)
    by_cases hlong : longestName < name.utf8ByteSize
    · simp [walkFrom, hstay, hup, hlong] at hf
    simp only [walkFrom, if_neg hstay, if_neg hup, if_neg hmade, if_neg hlong] at hf ⊢
    rw [if_neg (by simp)] at hf
    generalize t.get? (here ++ [name]) = e at hf ⊢
    rcases e with _ | e
    · exact .inl hf
    · cases e with
      | directory => exact ih _ hf
      | link target =>
        dsimp only at hf ⊢
        rw [if_neg (by simp)] at hf
        split
        · next hlast => exact .inr (.inl ⟨hlast.2, _, target, rfl⟩)
        · exact hlink _ _ f hf
      | _ => exact .inl hf

theorem likewise_walk (ending : Ending) (links : Nat) (here : Location) (names : List String)
    (f : Found) (hf : t.walk .followed links here names = .ok f) :
    Likewise ending f (t.walk ending links here names) := by
  induction links generalizing here names f with
  | zero => exact likewise_walkFrom (passes_walk t 0) (fun _ _ _ h => nomatch h) here names f hf
  | succ links ih => exact likewise_walkFrom (passes_walk t (links + 1)) ih here names f hf

theorem isDirectory_iff : t.isDirectory dir path = true ↔
    isPath path = true ∧ ∃ l, t.find dir path .followed = .ok (.entry l .directory) := by
  unfold isDirectory entry?
  cases isPath path with
  | false => simp
  | true =>
    cases hreach : t.reach dir path with
    | error r => simp [← reach_ok_iff, hreach, Except.toOption]
    | ok found => simp [← reach_ok_iff, hreach, Except.toOption, Prod.ext_iff]

theorem isDirectory_split {f : Found} (hpath : isPath path = true)
    (h : t.find dir path .followed = .ok f) (hne : (Path.split path).1 ≠ "") :
    t.isDirectory dir (Path.split path).1 = true := by
  obtain ⟨names, slash, hdir, hsteps, hslash, behind, happend⟩ := Path.steps_split hne
  have hstart : (Path.split path).1.startsWith "/" = path.startsWith "/" := by
    have hhead : path.toList.head? = (Path.split path).1.toList.head? := by
      have hchars := congrArg (fun p : String => p.toList.head?) happend
      rwa [String.toList_append, List.head?_append_of_ne_nil _ (by simpa using hne)] at hchars
    rw [Bool.eq_iff_iff, Path.startsWith_slash_iff, Path.startsWith_slash_iff, hhead]
  have hsize : (Path.split path).1.utf8ByteSize ≤ path.utf8ByteSize := by
    have hsum := congrArg String.utf8ByteSize happend
    rw [String.utf8ByteSize_append] at hsum
    omega
  refine isDirectory_iff.mpr ⟨isPath_of_subset (split_subset path).1 hpath, ?_⟩
  unfold find findSteps at h ⊢
  split at h
  · cases h
  · split at h
    · cases h
    · next hlong =>
      rw [if_neg hne, if_neg (by omega), hstart, hdir]
      rw [hsteps] at h
      obtain ⟨l, left, hwalk⟩ := passes_walk t linkLimit _ names [(Path.split path).2] f
        (List.cons_ne_nil _ _) h
      refine ⟨l, (hwalk slash).trans ?_⟩
      rcases hslash with rfl | rfl <;> cases left <;> simp [walk, walkFrom]

theorem isDirectory_parentAndName (h : t.isDirectory dir path = true)
    (hne : (parentAndName path).1 ≠ "") : t.isDirectory dir (parentAndName path).1 = true := by
  obtain ⟨hpath, l, hfind⟩ := isDirectory_iff.mp h
  unfold parentAndName at hne ⊢
  dsimp only at hne ⊢
  split at hne
  · next htail =>
    rw [if_pos htail]
    have hhead : (Path.split path).1 ≠ "" := by
      intro hempty
      rw [hempty] at hne
      exact hne rfl
    obtain ⟨hpath', l', hfind'⟩ := isDirectory_iff.mp (isDirectory_split hpath hfind hhead)
    exact isDirectory_split hpath' hfind' hne
  · next htail =>
    rw [if_neg htail]
    exact isDirectory_split hpath hfind hne

theorem find_made {f : Found} (h : t.find dir path .followed = .ok f)
    (hf : ∀ l, f ≠ .entry l .directory) : t.find dir path .made = .ok f := by
  unfold find findSteps at h ⊢
  split at h
  · cases h
  · next hne =>
    split at h
    · cases h
    · next hlong =>
      rw [if_neg hne, if_neg hlong]
      rcases likewise_walk .made linkLimit _ _ f h with hsame | ⟨hitself, -⟩ |
        ⟨-, l, hdir⟩
      · exact hsame
      · cases hitself
      · exact absurd hdir (hf l)

theorem find_itself_of_directory {l : Location}
    (h : t.find dir path .followed = .ok (.entry l .directory)) : ∃ l' e,
      t.findSteps dir path .itself ((Path.steps path).filter (!·.isEmpty)) = .ok (.entry l' e) := by
  obtain ⟨slash, hsteps, hslash⟩ := Path.steps_eq path
  unfold find findSteps at h
  unfold findSteps
  split at h
  · cases h
  · next hne =>
    split at h
    · cases h
    · next hlong =>
      rw [if_neg hne, if_neg hlong]
      generalize (Path.steps path).filter (!·.isEmpty) = names at hsteps ⊢
      rw [hsteps] at h
      generalize (if path.startsWith "/" then [] else dir) = here at h ⊢
      obtain ⟨l', hdir⟩ : ∃ l', t.walk .followed linkLimit here names =
          .ok (.entry l' .directory) := by
        rcases hslash with rfl | rfl
        · exact ⟨l, by rwa [List.append_nil] at h⟩
        · obtain ⟨l', left, hwalk⟩ := passes_walk t linkLimit here names [""] _
            (List.cons_ne_nil _ _) h
          refine ⟨l', ?_⟩
          rw [← List.append_nil names, hwalk []]
          cases left <;> rfl
      rcases likewise_walk .itself linkLimit here names _ hdir with hsame |
        ⟨-, l'', target, hlink⟩ | ⟨hmade, -⟩
      · exact ⟨l', _, hsame⟩
      · exact ⟨l'', _, hlink⟩
      · cases hmade

theorem makeHere_of_isDirectory (h : t.isDirectory dir path = true) :
    makeHere dir path t = .ok () t := by
  obtain ⟨hpath, l, hfind⟩ := isDirectory_iff.mp h
  obtain ⟨l', e, hitself⟩ := find_itself_of_directory hfind
  have hmake : makeDirectory dir path t = .error (.refused .exists) t := by
    rw [makeDirectory_apply, if_pos hpath, hitself]
  rw [makeHere, Attempt.handle_of_some hmake rfl, Attempt.bind_of_ok (Attempt.get_apply t), h]
  rfl

theorem makeDirectories_of_isDirectory (h : t.isDirectory dir path = true) :
    makeDirectories dir path t = .ok () t := by
  have habove : ¬((parentAndName path).1 ≠ "" ∧ (parentAndName path).2 ≠ "" ∧
      t.entry? dir (parentAndName path).1 = none) := by
    rintro ⟨hne, -, hnone⟩
    have hthere := isDirectory_parentAndName h hne
    rw [isDirectory, hnone] at hthere
    cases hthere
  rw [makeDirectories, makeDirectoriesIn_succ, Attempt.bind_of_ok (Attempt.get_apply t),
    if_neg habove, makeHere_of_isDirectory h]

/-- The path leads to a file, or to a free name in a directory. -/
def Offers (t : FileTree) (dir : Location) (path : String) (place : Location) : Prop :=
  isPath path = true ∧
    ((∃ bytes x, t.find dir path .followed = .ok (.entry place (.file bytes x))) ∨
      ∃ parent name, t.find dir path .followed = .ok (.missing parent name) ∧
        place = parent ++ [name])

theorem openTarget_of_offers (h : t.Offers dir path place) : ∃ u x,
    openTarget dir path false t = .ok place u ∧ u.get? place = some (.file .empty x) := by
  obtain ⟨hpath, hoffers⟩ := h
  have hopen : ∃ u x, openFile dir path false t = .ok place u ∧
      u.get? place = some (.file .empty x) := by
    rw [openFile_apply, if_pos hpath]
    rcases hoffers with ⟨bytes, x, hfind⟩ | ⟨parent, name, hfind, rfl⟩
    · have hmade : t.find dir path .made = .ok (.entry place (.file bytes x)) :=
        find_made hfind nofun
      refine ⟨_, x, by rw [hmade]; rfl, ?_⟩
      have hget := (fits_find hfind).resolve_left nofun
      rw [if_neg Bool.false_ne_true, get?_revise, if_pos rfl, hget]
      rfl
    · have hmade : t.find dir path .made = .ok (.missing parent name) := find_made hfind nofun
      refine ⟨_, false, by rw [hmade], ?_⟩
      rw [get?_put, if_pos ⟨by simp, rfl⟩]
  have hfind : ∃ f, t.find dir path .followed = .ok f := by
    rcases hoffers with ⟨_, _, hfind⟩ | ⟨_, _, hfind, -⟩ <;> exact ⟨_, hfind⟩
  obtain ⟨f, hfind⟩ := hfind
  have hmade : (if Path.parent path ≠ "" then makeDirectories dir (Path.parent path) else pure ())
      t = .ok () t := by
    split
    · next hparent => exact makeDirectories_of_isDirectory (isDirectory_split hpath hfind hparent)
    · rfl
  obtain ⟨u, x, hfile, hget⟩ := hopen
  exact ⟨u, x, by rw [openTarget_eq, Attempt.bind_of_ok hmade, hfile], hget⟩

end FileTree

end PipelineShell
