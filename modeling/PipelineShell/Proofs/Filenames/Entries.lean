import PipelineShell.FileTree.Setup
import PipelineShell.Proofs.Copying.Targets
import PipelineShell.Proofs.Lag.Kinds
import PipelineShell.Proofs.Lookup.Listing

/-! The entries of a directory and the paths to them. A path that leads to a directory leads on to
each entry in it, over no more links. -/

namespace PipelineShell

theorem Text.exists_mem_piecesOf {sep c : Char} {cs : List Char} (hmem : c ∈ cs) (hc : c ≠ sep) :
    ∃ p ∈ piecesOf sep cs, c ∈ p := by
  induction cs with
  | nil => cases hmem
  | cons d cs ih =>
    by_cases hd : d = sep
    · obtain ⟨p, hp, hcp⟩ := ih ((List.mem_cons.mp hmem).resolve_left fun h => hc (h.trans hd))
      exact ⟨p, by simp [piecesOf, hd, hp], hcp⟩
    · cases hrest : piecesOf sep cs with
      | nil =>
        have hnone : c ∉ cs := fun h => by simpa [hrest] using ih h
        obtain rfl := (List.mem_cons.mp hmem).resolve_right hnone
        exact ⟨[c], by simp [piecesOf, hd, hrest], List.mem_singleton_self c⟩
      | cons p ps =>
        have hpieces : piecesOf sep (d :: cs) = (d :: p) :: ps := by simp [piecesOf, hd, hrest]
        rw [hpieces]
        rcases List.mem_cons.mp hmem with rfl | hmem
        · exact ⟨c :: p, List.mem_cons_self, List.mem_cons_self⟩
        · obtain ⟨q, hq, hcq⟩ := ih hmem
          rcases List.mem_cons.mp (hrest ▸ hq) with rfl | hq
          · exact ⟨d :: q, List.mem_cons_self, List.mem_cons_of_mem d hcq⟩
          · exact ⟨q, List.mem_cons_of_mem _ hq, hcq⟩

theorem Path.exists_mem_steps {path : String} {c : Char} (hmem : c ∈ path.toList) (hc : c ≠ '/') :
    ∃ name ∈ steps path, c ∈ name.toList := by
  obtain ⟨p, hp, hcp⟩ := Text.exists_mem_piecesOf hmem hc
  have hpiece : String.ofList p ∈ Text.pieces '/' path := List.mem_map_of_mem hp
  refine ⟨String.ofList p, ?_, by simpa using hcp⟩
  unfold steps
  dsimp only
  rcases List.eq_nil_or_concat (Text.pieces '/' path) with hnil | ⟨front, last, hlast⟩
  · simp [hnil] at hpiece
  · have hne : p ≠ [] := List.ne_nil_of_mem hcp
    rw [hlast] at hpiece ⊢
    simpa [hne] using hpiece

theorem Path.join_eq {dir name : String} (hdir : dir ≠ "")
    (hend : dir.toList.getLast? ≠ some '/') (hname : '/' ∉ name.toList) :
    join dir name = dir ++ "/" ++ name := by
  have hslash : dir.endsWith "/" = false := by
    rw [Bool.eq_false_iff, Ne, endsWith_slash_iff]
    exact hend
  simp [join, not_startsWith_slash hname, hslash, hdir]

namespace FileTree

/-- A name that is looked for in a directory. -/
structure IsSought (name : String) : Prop where
  ne_empty : name ≠ ""
  ne_here : name ≠ "."
  ne_above : name ≠ ".."
  short : name.utf8ByteSize ≤ longestName

/-- A name that an entry can have in a directory. -/
structure IsName (name : String) : Prop extends IsSought name where
  slashless : '/' ∉ name.toList
  nulless : '\x00' ∉ name.toList

instance (name : String) : Decidable (IsName name) :=
  decidable_of_iff (name ≠ "" ∧ name ≠ "." ∧ name ≠ ".." ∧ name.utf8ByteSize ≤ longestName ∧
      '/' ∉ name.toList ∧ '\x00' ∉ name.toList)
    ⟨fun ⟨h₁, h₂, h₃, h₄, h₅, h₆⟩ => ⟨⟨h₁, h₂, h₃, h₄⟩, h₅, h₆⟩,
      fun h => ⟨h.ne_empty, h.ne_here, h.ne_above, h.short, h.slashless, h.nulless⟩⟩

/-- A tree whose directories have no entry twice, and each under a name that it can have. -/
structure WellNamed (t : FileTree) : Prop where
  distinct : t.Distinct
  isName : ∀ p ∈ t.entries, ∀ name ∈ p.1, IsName name

instance (t : FileTree) : Decidable t.WellNamed :=
  decidable_of_iff (t.Distinct ∧ ∀ p ∈ t.entries, ∀ name ∈ p.1, IsName name)
    ⟨fun ⟨h, h'⟩ => ⟨h, h'⟩, fun h => ⟨h.distinct, h.isName⟩⟩

example : system.WellNamed := by decide

variable {t : FileTree} {here place l l' : Location} {name first path : String}
  {names rest : List String} {links : Nat} {ending : Ending} {e : Entry}
  {onLink onLink' : Location → List String → Except Refusal Found}

theorem WellNamed.isName_of_mem (h : t.WellNamed) (hname : name ∈ t.names place) :
    IsName name := by
  rw [names_eq, List.mem_filterMap] at hname
  obtain ⟨l, hl, hin⟩ := hname
  obtain ⟨p, hp, rfl⟩ := List.mem_map.mp hl
  exact h.isName p hp name (by simp [mem_nameIn.mp hin])

/-! The first step on the way along some names. -/

theorem walkFrom_stay (h : first = "" ∨ first = ".") :
    t.walkFrom onLink ending here (first :: rest) = t.walkFrom onLink ending here rest := by
  simp [walkFrom, h]

theorem walkFrom_above : t.walkFrom onLink ending here (".." :: rest) =
    t.walkFrom onLink ending here.dropLast rest := by
  simp [walkFrom]

theorem walkFrom_sought (h : IsSought first) (hending : ending = .itself ∨ ending = .followed) :
    t.walkFrom onLink ending here (first :: rest) =
      match t.get? (here ++ [first]) with
      | none => if rest = [] then .ok (.missing here first) else .error .noEntry
      | some .directory => t.walkFrom onLink ending (here ++ [first]) rest
      | some (.link target) =>
        if rest = [] ∧ ending = .itself then .ok (.entry (here ++ [first]) (.link target))
        else onLink (if target.startsWith "/" then [] else here) (Path.steps target ++ rest)
      | some e => if rest = [] then .ok (.entry (here ++ [first]) e) else .error .notDirectory := by
  have hstay : ¬(first = "" ∨ first = ".") := by simp [h.ne_empty, h.ne_here]
  have hmade : ¬(ending = .made ∧ rest ≠ [] ∧ rest.all (· = "")) := by
    rcases hending with rfl | rfl <;> simp
  rw [walkFrom, if_neg hstay, if_neg h.ne_above, if_neg hmade]
  exact if_neg (Nat.not_lt.mpr h.short)

/-- How the way to a directory begins: at the same place, above it, in a directory there, or behind
a link there. -/
inductive Begins (t : FileTree) (onLink : Location → List String → Except Refusal Found)
    (place here : Location) (first : String) (rest : List String) : Prop
  | stays (hfirst : first = "" ∨ first = ".")
      (hrest : t.walkFrom onLink .followed here rest = .ok (.entry place .directory))
  | rises (hfirst : first = "..")
      (hrest : t.walkFrom onLink .followed here.dropLast rest = .ok (.entry place .directory))
  | enters (hfirst : IsSought first) (hentry : t.get? (here ++ [first]) = some .directory)
      (hrest : t.walkFrom onLink .followed (here ++ [first]) rest =
        .ok (.entry place .directory))
  | follows (hfirst : IsSought first) (target : String)
      (hentry : t.get? (here ++ [first]) = some (.link target))
      (hrest : onLink (if target.startsWith "/" then [] else here) (Path.steps target ++ rest) =
        .ok (.entry place .directory))

theorem begins_of_walkFrom
    (h : t.walkFrom onLink .followed here (first :: rest) = .ok (.entry place .directory)) :
    t.Begins onLink place here first rest := by
  by_cases hstay : first = "" ∨ first = "."
  · exact .stays hstay ((walkFrom_stay hstay).symm.trans h)
  by_cases hup : first = ".."
  · subst hup
    exact .rises rfl (walkFrom_above.symm.trans h)
  by_cases hlong : longestName < first.utf8ByteSize
  · simp [walkFrom, hstay, hup, hlong] at h
  obtain ⟨hempty, hdot⟩ := not_or.mp hstay
  have hsought : IsSought first := ⟨hempty, hdot, hup, Nat.not_lt.mp hlong⟩
  rw [walkFrom_sought hsought (.inr rfl)] at h
  cases hentry : t.get? (here ++ [first]) with
  | none =>
    rw [hentry] at h
    dsimp only at h
    split at h <;> cases h
  | some e =>
    rw [hentry] at h
    cases e with
    | directory => exact .enters hsought hentry h
    | link target => exact .follows hsought target hentry (by simpa using h)
    | _ =>
      dsimp only at h
      split at h <;> cases h

/-! On from a directory to one of its entries. -/

theorem walkFrom_entry (hname : IsSought name) (hget : t.get? (place ++ [name]) = some e)
    (hlink : ∀ here names, onLink here names = .ok (.entry place .directory) →
      onLink' here (names ++ [name]) = .ok (.entry (place ++ [name]) e))
    (here : Location) (names : List String)
    (h : t.walkFrom onLink .followed here names = .ok (.entry place .directory)) :
    t.walkFrom onLink' .itself here (names ++ [name]) = .ok (.entry (place ++ [name]) e) := by
  induction names generalizing here with
  | nil =>
    cases h
    rw [List.nil_append, walkFrom_sought hname (.inl rfl), hget]
    cases e <;> simp [walkFrom]
  | cons first rest ih =>
    rw [List.cons_append]
    cases begins_of_walkFrom h with
    | stays hfirst hrest =>
      rw [walkFrom_stay hfirst]
      exact ih here hrest
    | rises hfirst hrest =>
      rw [hfirst, walkFrom_above]
      exact ih here.dropLast hrest
    | enters hfirst hentry hrest =>
      rw [walkFrom_sought hfirst (.inl rfl), hentry]
      exact ih (here ++ [first]) hrest
    | follows hfirst target hentry hrest =>
      have hlast : ¬(rest ++ [name] = [] ∧ Ending.itself = .itself) := by simp
      rw [walkFrom_sought hfirst (.inl rfl), hentry]
      dsimp only
      rw [if_neg hlast, ← List.append_assoc]
      exact hlink _ _ hrest

theorem walk_entry (hname : IsSought name) (hget : t.get? (place ++ [name]) = some e)
    (links : Nat) (here : Location) (names : List String)
    (h : t.walk .followed links here names = .ok (.entry place .directory)) :
    t.walk .itself links here (names ++ [name]) = .ok (.entry (place ++ [name]) e) := by
  induction links generalizing here names with
  | zero => exact walkFrom_entry hname hget (fun _ _ hloop => by cases hloop) here names h
  | succ links ih => exact walkFrom_entry hname hget ih here names h

theorem walk_of_slash {slash : List String} (hslash : slash = [] ∨ slash = [""])
    (h : t.walk .followed links here (names ++ slash) = .ok (.entry place .directory)) :
    t.walk .followed links here names = .ok (.entry place .directory) := by
  rcases hslash with rfl | rfl
  · simpa using h
  · obtain ⟨place', left, hpass⟩ := t.passes_walk links here names [""] _ (by simp) h
    have hend : ∀ rest, (rest = [] ∨ rest = [""]) →
        t.walk .followed left place' rest = .ok (.entry place' .directory) := by
      rintro rest (rfl | rfl) <;> cases left <;> simp [walk, walkFrom]
    have hplace : place' = place := by
      have hboth := (hend [""] (.inr rfl)).symm.trans ((hpass [""]).symm.trans h)
      simpa using hboth
    rw [← List.append_nil names, hpass, hend [] (.inl rfl), hplace]

/-- Along its names the path leads to the entry at a place, of whatever length it is. A link there
is not followed. -/
def Leads (t : FileTree) (here : Location) (path : String) (l : Location) : Prop :=
  ∃ e, t.get? l = some e ∧
    t.walk .itself linkLimit (if path.startsWith "/" then [] else here) (Path.steps path) =
      .ok (.entry l e)

theorem Leads.unique (h : t.Leads here path l) (h' : t.Leads here path l') : l = l' := by
  obtain ⟨e, -, hwalk⟩ := h
  obtain ⟨e', -, hwalk'⟩ := h'
  cases hwalk.symm.trans hwalk'
  rfl

theorem find_of_short (hne : path ≠ "") (hshort : path.utf8ByteSize < pathLimit) :
    t.find here path ending =
      t.walk ending linkLimit (if path.startsWith "/" then [] else here) (Path.steps path) := by
  rw [find, findSteps, if_neg hne, if_neg (Nat.not_le.mpr hshort)]

theorem find_of_long (hlong : pathLimit ≤ path.utf8ByteSize) :
    t.find here path ending = .error .nameTooLong := by
  have hne : path ≠ "" := by
    rintro rfl
    exact absurd hlong (by decide)
  rw [find, findSteps, if_neg hne, if_pos hlong]

theorem Leads.exists_find (h : t.Leads here path l) (hne : path ≠ "")
    (hshort : path.utf8ByteSize < pathLimit) :
    ∃ e, t.get? l = some e ∧ t.find here path .itself = .ok (.entry l e) := by
  obtain ⟨e, hget, hwalk⟩ := h
  exact ⟨e, hget, (find_of_short hne hshort).trans hwalk⟩

theorem walk_of_enter (h : t.enter here path = .ok place) : path ≠ "" ∧
    t.walk .followed linkLimit (if path.startsWith "/" then [] else here) (Path.steps path) =
      .ok (.entry place .directory) := by
  have hfind := reach_ok_iff.mp (enter_ok_iff.mp h)
  unfold find findSteps at hfind
  split at hfind
  · cases hfind
  · next hne =>
    split at hfind
    · cases hfind
    · exact ⟨hne, hfind⟩

theorem leads_name (hname : IsName name) (hget : t.get? (here ++ [name]) = some e) :
    t.Leads here name (here ++ [name]) := by
  have hwalk := walk_entry hname.toIsSought hget linkLimit here [] (by rfl)
  refine ⟨e, hget, ?_⟩
  rw [Path.not_startsWith_slash hname.slashless, Path.steps_of_not_mem hname.slashless]
  exact hwalk

theorem leads_join {dir : String} (henter : t.enter here dir = .ok place) (hname : IsName name)
    (hget : t.get? (place ++ [name]) = some e) :
    t.Leads here (Path.join dir name) (place ++ [name]) := by
  obtain ⟨hdir, hwalk⟩ := walk_of_enter henter
  obtain ⟨names, slash, hsteps, hjoin, hslash⟩ := Path.steps_join hdir hname.slashless
  have hstart : (Path.join dir name).startsWith "/" = dir.startsWith "/" := by
    obtain ⟨behind, happend⟩ : ∃ behind, Path.join dir name = dir ++ behind :=
      Path.exists_join_eq hname.slashless
    rw [Bool.eq_iff_iff, Path.startsWith_slash_iff, Path.startsWith_slash_iff, happend,
      String.toList_append]
    cases hchars : dir.toList with
    | nil => exact absurd (by simpa using hchars) hdir
    | cons c cs => simp
  rw [hsteps] at hwalk
  refine ⟨e, hget, ?_⟩
  rw [hstart, hjoin]
  exact walk_entry hname.toIsSought hget linkLimit _ names (walk_of_slash hslash hwalk)

theorem walk_stay (h : first = "" ∨ first = ".") :
    t.walk ending links here (first :: rest) = t.walk ending links here rest := by
  cases links <;> exact walkFrom_stay h

theorem find_here (hname : IsName name) :
    t.find here (Path.join "." name) ending = t.find here name ending := by
  have hjoin : Path.join "." name = "." ++ "/" ++ name :=
    Path.join_eq (by decide) (by decide) hname.slashless
  have hchars : ("." ++ "/" ++ name).toList = ['.'] ++ '/' :: name.toList := by simp
  have hsteps : Path.steps ("." ++ "/" ++ name) = [".", name] := by
    rw [Path.steps_append hchars hname.slashless, Path.way_of_not_mem (by decide) (by decide)]
    simp
  have hsize : ("." ++ "/" ++ name).utf8ByteSize = 2 + name.utf8ByteSize := by
    rw [String.utf8ByteSize_append]
    rfl
  have hlimit : 2 + longestName < pathLimit := by decide
  have hshort : 2 + name.utf8ByteSize < pathLimit :=
    Nat.lt_of_le_of_lt (Nat.add_le_add_left hname.short 2) hlimit
  have hstart : ("." ++ "/" ++ name).startsWith "/" = false := by
    rw [Bool.eq_false_iff, Ne, Path.startsWith_slash_iff, hchars]
    simp
  rw [hjoin, find_of_short (by simp) (hsize ▸ hshort), find_of_short hname.ne_empty (by omega),
    hsteps, hstart, Path.not_startsWith_slash hname.slashless,
    Path.steps_of_not_mem hname.slashless, walk_stay (.inr rfl)]

/-! What can be entered has a path without a NUL. -/

theorem WellNamed.isPath_of_walkFrom (ht : t.WellNamed)
    (hlink : ∀ here names, onLink here names = .ok (.entry place .directory) →
      ∀ name ∈ names, isPath name = true) (here : Location) (names : List String)
    (h : t.walkFrom onLink .followed here names = .ok (.entry place .directory)) :
    ∀ name ∈ names, isPath name = true := by
  have hnamed : ∀ here first e, t.get? (here ++ [first]) = some e → isPath first = true := by
    intro here first e hentry
    have hmem : first ∈ t.names here := mem_names.mpr (by simp [hentry])
    exact isPath_iff.mpr (ht.isName_of_mem hmem).nulless
  induction names generalizing here with
  | nil => simp
  | cons first rest ih =>
    rw [List.forall_mem_cons]
    cases begins_of_walkFrom h with
    | stays hfirst hrest =>
      exact ⟨isPath_iff.mpr (by rcases hfirst with rfl | rfl <;> decide), ih here hrest⟩
    | rises hfirst hrest =>
      exact ⟨isPath_iff.mpr (by rw [hfirst]; decide), ih here.dropLast hrest⟩
    | enters _ hentry hrest => exact ⟨hnamed here first _ hentry, ih (here ++ [first]) hrest⟩
    | follows _ target hentry hrest =>
      exact ⟨hnamed here first _ hentry,
        fun name hname => hlink _ _ hrest name (List.mem_append_right _ hname)⟩

theorem WellNamed.isPath_of_walk (ht : t.WellNamed) (links : Nat) (here : Location)
    (names : List String)
    (h : t.walk .followed links here names = .ok (.entry place .directory)) :
    ∀ name ∈ names, isPath name = true := by
  induction links generalizing here names with
  | zero => exact ht.isPath_of_walkFrom (fun _ _ hloop => by cases hloop) here names h
  | succ links ih => exact ht.isPath_of_walkFrom ih here names h

theorem WellNamed.isPath_of_enter (ht : t.WellNamed) (h : t.enter here path = .ok place) :
    isPath path = true := by
  have hnames := ht.isPath_of_walk linkLimit _ _ (walk_of_enter h).2
  rw [isPath_iff]
  intro hmem
  obtain ⟨name, hname, hnul⟩ := Path.exists_mem_steps hmem (by decide)
  exact isPath_iff.mp (hnames name hname) hnul

theorem WellNamed.isDirectory_iff (ht : t.WellNamed) :
    t.isDirectory here path = true ↔ ∃ place, t.enter here path = .ok place := by
  constructor
  · intro h
    unfold isDirectory entry? at h
    split at h
    · cases hreach : t.reach here path with
      | error r => simp [hreach, Except.toOption] at h
      | ok found =>
        obtain ⟨place, e⟩ := found
        obtain rfl : e = .directory := by simpa [hreach, Except.toOption] using h
        exact ⟨place, enter_ok_iff.mpr hreach⟩
    · simp at h
  · rintro ⟨place, h⟩
    have hreach := enter_ok_iff.mp h
    simp [isDirectory, entry?, ht.isPath_of_enter h, hreach, Except.toOption]

end FileTree

end PipelineShell
