import Mathlib.Data.List.Nodup
import PipelineShell.Proofs.Lookup.Walks
import PipelineShell.SearchPath

/-! Which commands the search path lists, and which it finds. A link that cannot be followed ends
the listing of its directory. -/

namespace PipelineShell

namespace FileTree

/-- Each place has one entry at most. -/
def Distinct (t : FileTree) : Prop :=
  (t.entries.map Prod.fst).Nodup

instance (t : FileTree) : Decidable t.Distinct :=
  inferInstanceAs (Decidable (List.Nodup _))

def nameIn (l place : Location) : Option String :=
  if place.dropLast = l && !place.isEmpty then place.getLast? else none

theorem mem_nameIn {l place : Location} {name : String} :
    name ∈ nameIn l place ↔ place = l ++ [name] := by
  rcases List.eq_nil_or_concat place with rfl | ⟨front, last, rfl⟩
  · simp [nameIn]
  · by_cases hl : front = l
    · simp [nameIn, hl]
    · simp [nameIn, hl]

theorem names_eq (t : FileTree) (l : Location) :
    t.names l = (t.entries.map Prod.fst).filterMap (nameIn l) := by
  rw [List.filterMap_map]
  rfl

theorem mem_names {t : FileTree} {l : Location} {name : String} :
    name ∈ t.names l ↔ t.get? (l ++ [name]) ≠ none := by
  have hget : t.get? (l ++ [name]) = t.entries.lookup (l ++ [name]) := by
    simp [get?]
  rw [names_eq, List.mem_filterMap, hget, Ne, List.lookup_eq_none_iff]
  simp only [← Option.mem_def, mem_nameIn]
  simp

theorem Distinct.nodup_names {t : FileTree} (h : t.Distinct) (l : Location) :
    (t.names l).Nodup := by
  rw [names_eq]
  refine List.Nodup.filterMap (fun place place' name hname hname' => ?_) h
  rw [mem_nameIn.mp hname, mem_nameIn.mp hname']

end FileTree

namespace SearchPath

variable {w : World} {path : String}

/-- A link in a directory that cannot be followed, for a loop or for a file on the way. A link that
leads to nothing is none of these. -/
def stops (w : World) (dir : String) (place : Location) (name : String) : Bool :=
  match w.tree.get? (place ++ [name]), w.tree.reach w.dir (Path.join dir name) with
  | some (.link _), .error r => r ≠ .noEntry
  | _, _ => false

/-- The name is a program of the directory, and no link that cannot be followed stands before it,
but for links with names that were seen in directories before. -/
def Shown (w : World) (dir : String) (place : Location) (seen names : List String)
    (name : String) : Prop :=
  w.isExecutable (Path.join dir name) = true ∧
    ∃ before after, names = before ++ name :: after ∧
      ∀ other ∈ before, other ∉ seen → stops w dir place other = false

theorem isExecutable_of_reach_error {r : Refusal}
    (h : w.tree.reach w.dir path = .error r) : w.isExecutable path = false := by
  unfold World.isExecutable FileTree.isExecutable FileTree.entry?
  cases FileTree.isPath path <;> simp [h, Except.toOption]

theorem stops_of_isExecutable {dir name : String} {place : Location}
    (h : w.isExecutable (Path.join dir name) = true) : stops w dir place name = false := by
  unfold stops
  split
  · next hreach => simp [isExecutable_of_reach_error hreach] at h
  · rfl

theorem scan_cons (w : World) (dir name : String) (place : Location) (seen names : List String) :
    scan w dir place seen (name :: names) =
      if name ∈ seen then scan w dir place seen names
      else if stops w dir place name then []
      else if w.isExecutable (Path.join dir name) then name :: scan w dir place seen names
      else scan w dir place seen names := by
  have hexec : ∀ r, w.tree.reach w.dir (Path.join dir name) = .error r →
      w.isExecutable (Path.join dir name) = false := fun r => isExecutable_of_reach_error
  by_cases hseen : name ∈ seen
  · simp [scan, hseen]
  · cases hentry : w.tree.get? (place ++ [name]) with
    | none => simp [scan, stops, hseen, hentry]
    | some e =>
      cases hreach : w.tree.reach w.dir (Path.join dir name) with
      | ok found => cases e <;> simp [scan, stops, hseen, hentry, hreach]
      | error r =>
        cases e with
        | link target =>
          by_cases hr : r = .noEntry
          · subst hr
            simp [scan, stops, hseen, hentry, hreach, hexec _ hreach]
          · simp [scan, stops, hseen, hentry, hreach, hr]
        | directory => simp [scan, stops, hseen, hentry]
        | file content executable => simp [scan, stops, hseen, hentry]
        | device d => simp [scan, stops, hseen, hentry]
        | tool tool => simp [scan, stops, hseen, hentry]

variable {dir name : String} {place : Location} {seen names : List String}

theorem scan_sublist : (scan w dir place seen names).Sublist names := by
  induction names with
  | nil => exact List.Sublist.slnil
  | cons name names ih =>
    rw [scan_cons]
    split
    · exact ih.cons name
    · split
      · exact List.nil_sublist _
      · split
        · exact ih.cons_cons name
        · exact ih.cons name

theorem not_mem_of_mem_scan (h : name ∈ scan w dir place seen names) : name ∉ seen := by
  induction names with
  | nil => cases h
  | cons other names ih =>
    rw [scan_cons] at h
    split at h
    · exact ih h
    · next hother =>
      split at h
      · cases h
      · split at h
        · rcases List.mem_cons.mp h with rfl | h
          · exact hother
          · exact ih h
        · exact ih h

theorem shown_cons {other : String} : Shown w dir place seen (other :: names) name ↔
    other = name ∧ w.isExecutable (Path.join dir name) = true ∨
      (other ∉ seen → stops w dir place other = false) ∧ Shown w dir place seen names name := by
  constructor
  · rintro ⟨hexec, before, after, hsplit, hbefore⟩
    cases before with
    | nil => exact .inl ⟨(List.cons.inj hsplit).1, hexec⟩
    | cons b before =>
      obtain ⟨rfl, rfl⟩ := List.cons.inj hsplit
      exact .inr ⟨hbefore other (by simp), hexec, before, after, rfl,
        fun o ho => hbefore o (by simp [ho])⟩
  · rintro (⟨rfl, hexec⟩ | ⟨hother, hexec, before, after, rfl, hbefore⟩)
    · exact ⟨hexec, [], names, rfl, by simp⟩
    · refine ⟨hexec, other :: before, after, rfl, fun o ho => ?_⟩
      rcases List.mem_cons.mp ho with rfl | ho
      · exact hother
      · exact hbefore o ho

theorem mem_scan (hseen : name ∉ seen) : name ∈ scan w dir place seen names ↔
    Shown w dir place seen names name := by
  induction names with
  | nil => simp [scan, Shown]
  | cons other names ih =>
    rw [scan_cons, shown_cons]
    by_cases hother : other ∈ seen
    · have hne : other ≠ name := fun h => hseen (h ▸ hother)
      simp [hother, hne, ih]
    · by_cases hstops : stops w dir place other = true
      · have hne : ¬(other = name ∧ w.isExecutable (Path.join dir name) = true) := by
          rintro ⟨rfl, hexec⟩
          simp [stops_of_isExecutable hexec] at hstops
        simp [hother, hstops, hne]
      · by_cases hexec : w.isExecutable (Path.join dir other) = true
        · by_cases hname : other = name
          · subst hname
            simp [hother, hstops, hexec]
          · simp [hother, hstops, hexec, hname, Ne.symm hname, ih]
        · have hne : ¬(other = name ∧ w.isExecutable (Path.join dir name) = true) := by
            rintro ⟨rfl, h⟩
            exact hexec h
          simp [hother, hstops, hexec, hne, ih]

/-- The directory stands on the search path and lists the name. -/
def Lists (w : World) (dirs : List String) (seen : List String) (name : String) : Prop :=
  ∃ before dir after place, dirs = before ++ dir :: after ∧ w.tree.enter w.dir dir = .ok place ∧
    Shown w dir place (executablesIn w seen before) (w.tree.names place) name

theorem subset_executablesIn (w : World) (seen dirs : List String) :
    seen ⊆ executablesIn w seen dirs := by
  induction dirs generalizing seen with
  | nil => exact List.Subset.refl seen
  | cons dir dirs ih =>
    simp only [executablesIn]
    split
    · exact List.Subset.trans (List.subset_append_left _ _) (ih _)
    · exact ih seen

theorem executablesIn_append (w : World) (seen before after : List String) :
    executablesIn w seen (before ++ after) =
      executablesIn w (executablesIn w seen before) after := by
  induction before generalizing seen with
  | nil => rfl
  | cons dir before ih =>
    simp only [List.cons_append, executablesIn]
    split <;> exact ih _

theorem nodup_executablesIn (hdistinct : w.tree.Distinct) {seen : List String}
    (hseen : seen.Nodup) (dirs : List String) : (executablesIn w seen dirs).Nodup := by
  induction dirs generalizing seen with
  | nil => exact hseen
  | cons dir dirs ih =>
    simp only [executablesIn]
    split
    · next place henter =>
      have hnew : (scan w dir place seen (w.tree.names place)).Nodup :=
        scan_sublist.nodup (hdistinct.nodup_names place)
      exact ih (List.Nodup.append hseen hnew fun name hmem hscan =>
        not_mem_of_mem_scan hscan hmem)
    · exact ih hseen

theorem executablesIn_cons (w : World) (seen : List String) (dir : String) (dirs : List String) :
    executablesIn w seen (dir :: dirs) = executablesIn w (executablesIn w seen [dir]) dirs :=
  executablesIn_append w seen [dir] dirs

theorem mem_executablesIn_singleton : name ∈ executablesIn w seen [dir] ↔
    name ∈ seen ∨ ∃ place, w.tree.enter w.dir dir = .ok place ∧
      Shown w dir place seen (w.tree.names place) name := by
  by_cases hseen : name ∈ seen
  · simp [hseen, subset_executablesIn w seen [dir] hseen]
  · cases henter : w.tree.enter w.dir dir with
    | error r => simp [executablesIn, henter, hseen]
    | ok place => simp [executablesIn, henter, hseen, mem_scan]

theorem lists_cons {dirs : List String} : Lists w (dir :: dirs) seen name ↔
    (∃ place, w.tree.enter w.dir dir = .ok place ∧
      Shown w dir place seen (w.tree.names place) name) ∨
        Lists w dirs (executablesIn w seen [dir]) name := by
  constructor
  · rintro ⟨before, other, after, place, hsplit, henter, hshown⟩
    cases before with
    | nil =>
      obtain ⟨rfl, rfl⟩ := List.cons.inj hsplit
      exact .inl ⟨place, henter, hshown⟩
    | cons b before =>
      obtain ⟨rfl, rfl⟩ := List.cons.inj hsplit
      rw [executablesIn_cons] at hshown
      exact .inr ⟨before, other, after, place, rfl, henter, hshown⟩
  · rintro (⟨place, henter, hshown⟩ | ⟨before, other, after, place, rfl, henter, hshown⟩)
    · exact ⟨[], dir, dirs, place, rfl, henter, hshown⟩
    · rw [← executablesIn_cons] at hshown
      exact ⟨dir :: before, other, after, place, rfl, henter, hshown⟩

theorem mem_executablesIn {dirs : List String} : name ∈ executablesIn w seen dirs ↔
    name ∈ seen ∨ Lists w dirs seen name := by
  induction dirs generalizing seen with
  | nil => simp [executablesIn, Lists]
  | cons dir dirs ih =>
    rw [executablesIn_cons, ih, mem_executablesIn_singleton, lists_cons, or_assoc]

theorem Lists.isExecutable {dirs : List String} (h : Lists w dirs seen name) :
    ∃ dir ∈ dirs, w.isExecutable (Path.join dir name) = true := by
  obtain ⟨before, dir, after, place, rfl, -, hexec, -⟩ := h
  exact ⟨dir, by simp, hexec⟩

theorem ne_empty_of_mem_directories (h : dir ∈ directories path) : dir ≠ "" := by
  have hdir := (List.mem_filter.mp (List.mem_eraseDups.mp h)).2
  simpa using hdir

theorem isSome_find_iff (hname : '/' ∉ name.toList) : (find w path name).isSome = true ↔
    ∃ dir ∈ directories path, w.isExecutable (Path.join dir name) = true := by
  have hslash : name.toList.contains '/' = false := by
    simpa using hname
  unfold find
  rw [hslash]
  by_cases hempty : name = ""
  · subst hempty
    have hnone : ∀ dir ∈ directories path, ¬w.isExecutable (Path.join dir "") = true := by
      intro dir hdir hexec
      obtain ⟨-, -, hne, -⟩ := FileTree.exists_enter_of_isExecutable
        (ne_empty_of_mem_directories hdir) hname hexec
      exact hne rfl
    simpa using hnone
  · simp [hempty]

/-- A link that cannot be followed is the one thing that keeps a program from being listed. -/
theorem lists_of_isExecutable {dirs : List String} (hdir : dir ∈ dirs) (hne : dir ≠ "")
    (hname : '/' ∉ name.toList) (hexec : w.isExecutable (Path.join dir name) = true)
    (hstops : ∀ place, w.tree.enter w.dir dir = .ok place →
      ∀ other ∈ w.tree.names place, stops w dir place other = false) :
    Lists w dirs seen name := by
  obtain ⟨place, henter, -, hget⟩ := FileTree.exists_enter_of_isExecutable hne hname hexec
  obtain ⟨before, after, hdirs⟩ := List.append_of_mem hdir
  obtain ⟨front, back, hnames⟩ := List.append_of_mem (FileTree.mem_names.mpr hget)
  refine ⟨before, dir, after, place, hdirs, henter, hexec, front, back, hnames, fun o ho _ => ?_⟩
  exact hstops place henter o (by simp [hnames, ho])

/-- No name is listed twice. A name is listed if it is found, and if in a directory with such a
program no link that cannot be followed stands before it. -/
theorem executables_agree {w : World} (hdistinct : w.tree.Distinct) (path : String) :
    (executables w path).Nodup ∧ ∀ name, '/' ∉ name.toList →
      (name ∈ executables w path ↔
        (find w path name).isSome = true ∧ Lists w (directories path) [] name) ∧
      ((∀ dir ∈ directories path, ∀ place, w.tree.enter w.dir dir = .ok place →
          ∀ other ∈ w.tree.names place, stops w dir place other = false) →
        (name ∈ executables w path ↔ (find w path name).isSome = true)) := by
  refine ⟨nodup_executablesIn hdistinct List.nodup_nil _, fun name hname => ?_⟩
  have hlisted : name ∈ executables w path ↔ Lists w (directories path) [] name := by
    simp [executables, mem_executablesIn]
  have hfound : Lists w (directories path) [] name → (find w path name).isSome = true :=
    fun h => (isSome_find_iff hname).mpr h.isExecutable
  rw [hlisted]
  refine ⟨⟨fun h => ⟨hfound h, h⟩, And.right⟩, fun hstops => ⟨hfound, fun h => ?_⟩⟩
  obtain ⟨dir, hdir, hexec⟩ := (isSome_find_iff hname).mp h
  exact lists_of_isExecutable hdir (ne_empty_of_mem_directories hdir) hname hexec (hstops dir hdir)

/-- A directory with two links to themselves and a program between them. -/
def looping : World :=
  ⟨⟨[(["bin"], .directory), (["bin", "a"], .link "a"), (["bin", "e"], .file .empty true),
    (["bin", "m"], .link "m")], 4096⟩, [], [], ⟨2024, 1, 1, 0, 0, 0, 0⟩, [], ⟨none, []⟩⟩

/-- The program is found, and it is not listed. -/
theorem executables_agree_looping : looping.tree.Distinct ∧
    find looping "/bin" "e" = some "/bin/e" ∧ executables looping "/bin" = [] ∧
      ¬Lists looping (directories "/bin") [] "e" := by
  have hfound : find looping "/bin" "e" = some "/bin/e" := by decide +kernel
  have hlisted : executables looping "/bin" = [] := by decide +kernel
  have hdistinct : looping.tree.Distinct := by decide
  have hagree := ((executables_agree hdistinct "/bin").2 "e" (by decide)).1
  refine ⟨hdistinct, hfound, hlisted, fun hlists => ?_⟩
  have hmem := hagree.mpr ⟨by rw [hfound]; rfl, hlists⟩
  rw [hlisted] at hmem
  cases hmem

end SearchPath

end PipelineShell
