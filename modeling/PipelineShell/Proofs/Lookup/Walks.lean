import PipelineShell.Proofs.Paths
import PipelineShell.World

/-! A path to a name in a directory leads through the directory, which therefore is entered by its
own path. -/

namespace PipelineShell

namespace Text

theorem piecesOf_append (sep : Char) (cs ds : List Char) :
    piecesOf sep (cs ++ sep :: ds) = piecesOf sep cs ++ piecesOf sep ds := by
  induction cs with
  | nil => simp [piecesOf]
  | cons c cs ih =>
    by_cases hc : c = sep
    · simp [piecesOf, hc, ih]
    · cases hp : piecesOf sep cs with
      | nil =>
        cases cs with
        | nil => cases hp
        | cons d cs =>
          simp only [piecesOf] at hp
          split at hp
          · cases hp
          · split at hp <;> cases hp
      | cons p ps => simp [piecesOf, hc, ih, hp]

theorem piecesOf_eq_singleton {sep : Char} {cs : List Char} (h : sep ∉ cs) :
    piecesOf sep cs = [cs] := by
  induction cs with
  | nil => rfl
  | cons c cs ih =>
    have hc : c ≠ sep := fun hcs => h (by simp [hcs])
    have hcs : sep ∉ cs := fun hmem => h (by simp [hmem])
    simp [piecesOf, hc, ih hcs]

end Text

namespace Path

variable {dir name : String}

theorem startsWith_slash_iff {path : String} :
    path.startsWith "/" = true ↔ path.toList.head? = some '/' := by
  rw [String.startsWith_string_iff]
  cases path.toList with
  | nil => simp
  | cons c cs => simp [List.cons_prefix_cons, eq_comm]

theorem endsWith_slash_iff {path : String} :
    path.endsWith "/" = true ↔ path.toList.getLast? = some '/' := by
  rw [← String.endsWith_toSlice, String.Slice.endsWith_string_iff]
  simp [List.suffix_iff_exists_append_eq, List.getLast?_eq_some_iff, eq_comm (a := path.toList)]

/-- The names before the last one. Empty ones are left out. -/
def way (cs : List Char) : List String :=
  ((Text.piecesOf '/' cs).map String.ofList).filter (!·.isEmpty)

theorem steps_of_not_mem (h : '/' ∉ name.toList) : steps name = [name] := by
  simp [steps, Text.pieces, Text.piecesOf_eq_singleton h]

theorem steps_append {path : String} {cs ds : List Char} (hpath : path.toList = cs ++ '/' :: ds)
    (hds : '/' ∉ ds) : steps path = way cs ++ [String.ofList ds] := by
  simp [steps, way, Text.pieces, hpath, Text.piecesOf_append, Text.piecesOf_eq_singleton hds]

theorem way_of_not_mem {cs : List Char} (hne : cs ≠ []) (h : '/' ∉ cs) :
    way cs = [String.ofList cs] := by
  simp [way, Text.piecesOf_eq_singleton h, hne]

theorem way_append {cs ds : List Char} (hne : ds ≠ []) (h : '/' ∉ ds) :
    way (cs ++ '/' :: ds) = way cs ++ [String.ofList ds] := by
  simp [way, Text.piecesOf_append, Text.piecesOf_eq_singleton h, hne]

theorem exists_last_slash {cs : List Char} (h : '/' ∈ cs) :
    ∃ as bs, cs = as ++ '/' :: bs ∧ '/' ∉ bs := by
  obtain ⟨as, bs, hsplit, has⟩ := List.eq_append_cons_of_mem (List.mem_reverse.mpr h)
  have hcs : cs = bs.reverse ++ '/' :: as.reverse := by
    have hrev := congrArg List.reverse hsplit
    simpa using hrev
  exact ⟨bs.reverse, as.reverse, hcs, by simpa using has⟩

theorem not_startsWith_slash (h : '/' ∉ name.toList) : name.startsWith "/" = false := by
  rw [Bool.eq_false_iff, Ne, startsWith_slash_iff]
  exact fun hhead => h (List.mem_of_mem_head? hhead)

theorem exists_join_eq (h : '/' ∉ name.toList) : ∃ behind, join dir name = dir ++ behind := by
  unfold join
  rw [if_neg (by simp [not_startsWith_slash h])]
  split
  · exact ⟨name, rfl⟩
  · exact ⟨"/" ++ name, String.append_assoc⟩

/-- The way along a joined path goes the way of the directory, and from there to the name. A slash
behind the directory adds nothing to it. -/
theorem steps_join (hdir : dir ≠ "") (hname : '/' ∉ name.toList) :
    ∃ names slash, steps dir = names ++ slash ∧ steps (join dir name) = names ++ [name] ∧
      (slash = [] ∨ slash = [""]) := by
  have hstart := not_startsWith_slash hname
  have hne : dir.toList ≠ [] := by simpa using hdir
  by_cases hmem : '/' ∈ dir.toList
  · obtain ⟨as, bs, hsplit, hbs⟩ := exists_last_slash hmem
    have hsteps := steps_append hsplit hbs
    by_cases hend : bs = []
    · subst hend
      have hjoin : (join dir name).toList = as ++ '/' :: name.toList := by
        have hslash : dir.endsWith "/" = true := by simp [endsWith_slash_iff, hsplit]
        simp [join, hstart, hslash, hsplit]
      refine ⟨way as, [""], hsteps, ?_, .inr rfl⟩
      simpa using steps_append hjoin hname
    · have hjoin : (join dir name).toList = dir.toList ++ '/' :: name.toList := by
        have hslash : dir.endsWith "/" = false := by
          have hlast : dir.toList.getLast? = bs.getLast? := by
            obtain ⟨bs, b, rfl⟩ := List.eq_nil_or_concat bs |>.resolve_left hend
            simp [hsplit, List.getLast?_cons]
          rw [Bool.eq_false_iff, Ne, endsWith_slash_iff, hlast]
          exact fun h => hbs (List.mem_of_getLast? h)
        simp [join, hstart, hslash, hdir]
      refine ⟨way as ++ [String.ofList bs], [], by simpa using hsteps, ?_, .inl rfl⟩
      have hway := steps_append hjoin hname
      rw [hsplit, way_append hend hbs] at hway
      simpa using hway
  · have hjoin : (join dir name).toList = dir.toList ++ '/' :: name.toList := by
      have hslash : dir.endsWith "/" = false := by
        rw [Bool.eq_false_iff, Ne, endsWith_slash_iff]
        exact fun h => hmem (List.mem_of_getLast? h)
      simp [join, hstart, hslash, hdir]
    refine ⟨[dir], [], by simpa using steps_of_not_mem hmem, ?_, .inl rfl⟩
    have hway := steps_append hjoin hname
    rw [way_of_not_mem hne hmem] at hway
    simpa using hway

end Path

namespace FileTree

variable {t : FileTree}

/-- Where names lead on from a directory, the names before them lead to a directory, with some
links left to follow. That does not depend on the names behind. -/
def Passes (t : FileTree) (walk : Location → List String → Except Refusal Found) : Prop :=
  ∀ here names tail f, tail ≠ [] → walk here (names ++ tail) = .ok f →
    ∃ place left, ∀ rest, walk here (names ++ rest) = t.walk .followed left place rest

theorem passes_walkFrom {links : Nat} {onLink : Location → List String → Except Refusal Found}
    (hlinks : t.walk .followed links = t.walkFrom onLink .followed) (h : t.Passes onLink) :
    t.Passes (t.walk .followed links) := by
  intro here names tail f htail hf
  induction names generalizing here with
  | nil => exact ⟨here, links, fun rest => rfl⟩
  | cons name names ih =>
    have hrest : names ++ tail ≠ [] := by simp [htail]
    rw [hlinks] at hf ih ⊢
    by_cases hstay : name = "" ∨ name = "."
    · have hstep : ∀ rest, t.walkFrom onLink .followed here (name :: names ++ rest) =
          t.walkFrom onLink .followed here (names ++ rest) := by
        simp [walkFrom, hstay]
      simp only [hstep] at hf ⊢
      exact ih here hf
    · by_cases hup : name = ".."
      · have hstep : ∀ rest, t.walkFrom onLink .followed here (name :: names ++ rest) =
            t.walkFrom onLink .followed here.dropLast (names ++ rest) := by
          simp [walkFrom, hup]
        simp only [hstep] at hf ⊢
        exact ih here.dropLast hf
      · by_cases hlong : longestName < name.utf8ByteSize
        · simp [walkFrom, hstay, hup, hlong] at hf
        · cases hentry : t.get? (here ++ [name]) with
          | none => simp [walkFrom, hstay, hup, hlong, hentry, htail] at hf
          | some e =>
            cases e with
            | directory =>
              have hstep : ∀ rest, t.walkFrom onLink .followed here (name :: names ++ rest) =
                  t.walkFrom onLink .followed (here ++ [name]) (names ++ rest) := by
                simp [walkFrom, hstay, hup, hlong, hentry]
              simp only [hstep] at hf ⊢
              exact ih (here ++ [name]) hf
            | link target =>
              have hstep : ∀ rest, t.walkFrom onLink .followed here (name :: names ++ rest) =
                  onLink (if target.startsWith "/" then [] else here)
                    ((Path.steps target ++ names) ++ rest) := by
                simp [walkFrom, hstay, hup, hlong, hentry]
              simp only [hstep] at hf ⊢
              exact h _ _ tail f htail hf
            | file content executable => simp [walkFrom, hstay, hup, hlong, hentry, htail] at hf
            | device d => simp [walkFrom, hstay, hup, hlong, hentry, htail] at hf
            | tool tool => simp [walkFrom, hstay, hup, hlong, hentry, htail] at hf

theorem passes_walk (t : FileTree) (links : Nat) : t.Passes (t.walk .followed links) := by
  induction links with
  | zero =>
    have hnone : t.walk .followed 0 = t.walkFrom (fun _ _ => .error .linkLoop) .followed := rfl
    exact passes_walkFrom hnone fun _ _ _ _ _ h => nomatch h
  | succ links ih =>
    have hmore : t.walk .followed (links + 1) = t.walkFrom (t.walk .followed links) .followed := rfl
    exact passes_walkFrom hmore ih

theorem reach_ok_iff {here place : Location} {path : String} {e : Entry} :
    t.reach here path = .ok (place, e) ↔ t.find here path .followed = .ok (.entry place e) := by
  unfold reach
  cases t.find here path .followed with
  | error r => simp
  | ok found => cases found <;> simp

theorem enter_ok_iff {here place : Location} {path : String} :
    t.enter here path = .ok place ↔ t.reach here path = .ok (place, .directory) := by
  unfold enter
  cases t.reach here path with
  | error r => simp
  | ok found =>
    obtain ⟨place', e⟩ := found
    cases e <;> simp

theorem exists_reach_of_isExecutable {here : Location} {path : String}
    (h : t.isExecutable here path = true) :
    ∃ place e, t.reach here path = .ok (place, e) ∧ e ≠ .directory := by
  unfold isExecutable entry? at h
  cases hreach : t.reach here path with
  | error r => simp [hreach, Except.toOption] at h
  | ok found =>
    obtain ⟨place, e⟩ := found
    refine ⟨place, e, rfl, ?_⟩
    rintro rfl
    split at h <;> simp_all [Except.toOption]

theorem get?_ne_none_of_walk {links : Nat} {here place : Location} {name : String} {e : Entry}
    (h : t.walk .followed links here [name] = .ok (.entry place e)) (he : e ≠ .directory) :
    name ≠ "" ∧ t.get? (here ++ [name]) ≠ none := by
  have hwalk : ∃ onLink, t.walk .followed links = t.walkFrom onLink .followed := by
    cases links <;> exact ⟨_, rfl⟩
  obtain ⟨onLink, hwalk⟩ := hwalk
  rw [hwalk] at h
  by_cases hstay : name = "" ∨ name = "."
  · have hdir : Found.entry here .directory = .entry place e := by
      simpa [walkFrom, hstay] using h
    exact absurd (Found.entry.inj hdir).2.symm he
  · refine ⟨fun hempty => hstay (.inl hempty), fun hnone => ?_⟩
    by_cases hup : name = ".."
    · have hdir : Found.entry here.dropLast .directory = .entry place e := by
        simpa [walkFrom, hstay, hup] using h
      exact absurd (Found.entry.inj hdir).2.symm he
    · by_cases hlong : longestName < name.utf8ByteSize
      · simp [walkFrom, hstay, hup, hlong] at h
      · simp [walkFrom, hstay, hup, hlong, hnone] at h

theorem exists_enter_of_isExecutable {here : Location} {dir name : String} (hdir : dir ≠ "")
    (hname : '/' ∉ name.toList) (h : t.isExecutable here (Path.join dir name) = true) :
    ∃ place, t.enter here dir = .ok place ∧ name ≠ "" ∧ t.get? (place ++ [name]) ≠ none := by
  obtain ⟨target, e, hreach, he⟩ := exists_reach_of_isExecutable h
  obtain ⟨names, slash, hsteps, hjoin, hslash⟩ := Path.steps_join hdir hname
  obtain ⟨behind, happend⟩ : ∃ behind, Path.join dir name = dir ++ behind :=
    Path.exists_join_eq hname
  have hstart : (Path.join dir name).startsWith "/" = dir.startsWith "/" := by
    rw [Bool.eq_iff_iff, Path.startsWith_slash_iff, Path.startsWith_slash_iff, happend,
      String.toList_append]
    cases hchars : dir.toList with
    | nil => exact absurd (by simpa using hchars) hdir
    | cons c cs => simp
  have hsize : dir.utf8ByteSize ≤ (Path.join dir name).utf8ByteSize := by
    rw [happend, String.utf8ByteSize_append]
    omega
  have hfind := reach_ok_iff.mp hreach
  unfold find findSteps at hfind
  split at hfind
  · cases hfind
  · split at hfind
    · cases hfind
    · next hlimit =>
      rw [hjoin, hstart] at hfind
      obtain ⟨place, left, hplace⟩ :=
        t.passes_walk linkLimit _ names [name] _ (by simp) hfind
      have hend := get?_ne_none_of_walk ((hplace [name]).symm.trans hfind) he
      refine ⟨place, ?_, hend⟩
      have hwalk : t.walk .followed left place slash = .ok (.entry place .directory) := by
        rcases hslash with rfl | rfl <;> cases left <;> simp [walk, walkFrom]
      rw [enter_ok_iff, reach_ok_iff]
      unfold find findSteps
      rw [if_neg hdir, if_neg (by omega), hsteps, hplace slash, hwalk]

end FileTree

end PipelineShell
