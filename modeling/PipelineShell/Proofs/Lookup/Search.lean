import Mathlib.Data.List.Induction
import PipelineShell.Proofs.Lag.Kinds
import PipelineShell.Proofs.Lookup.Dispatch

/-! What a name is looked up as: the first file that can be run under that name on the way through
the search path, of which it makes no difference that directories come again or are empty. The file
has a path with a slash, by which it is started. -/

namespace PipelineShell

/-- A file with leave to be run. -/
def Entry.IsProgram (e : Entry) : Prop :=
  (∃ content, e = .file content true) ∨ ∃ name, e = .tool name

/-- The path leads to a program, over whatever links. -/
def World.LeadsToProgram (w : World) (path : String) : Prop :=
  FileTree.isPath path = true ∧ ∃ place e, w.tree.reach w.dir path = .ok (place, e) ∧
    w.tree.get? place = some e ∧ e.IsProgram

theorem World.isExecutable_iff {w : World} {path : String} :
    w.isExecutable path = true ↔ w.LeadsToProgram path := by
  unfold isExecutable FileTree.isExecutable FileTree.entry? LeadsToProgram
  cases hpath : FileTree.isPath path with
  | false => simp
  | true =>
    cases hreach : w.tree.reach w.dir path with
    | error r => simp [Except.toOption]
    | ok found =>
      obtain ⟨place, e⟩ := found
      have hfits := FileTree.fits_find (FileTree.reach_ok_iff.mp hreach)
      cases e <;> simp_all [Except.toOption, Entry.IsProgram, Found.Fits]

namespace SearchPath

variable {α : Type} [DecidableEq α]

theorem eraseDups_concat (l : List α) (a : α) :
    (l ++ [a]).eraseDups = l.eraseDups ++ if a ∈ l then [] else [a] := by
  rw [List.eraseDups_append]
  by_cases ha : a ∈ l <;> simp [List.removeAll, List.eraseDups_cons, ha]

theorem eraseDups_filter (p : α → Bool) (l : List α) :
    (l.filter p).eraseDups = l.eraseDups.filter p := by
  induction l using List.reverseRecOn with
  | nil => rfl
  | append_singleton l a ih =>
    rw [eraseDups_concat, List.filter_append, List.filter_append, ← ih]
    by_cases ha : p a = true
    · by_cases hmem : a ∈ l <;> simp [ha, hmem, eraseDups_concat]
    · by_cases hmem : a ∈ l <;> simp [ha, hmem]

theorem find?_eraseDups (p : α → Bool) (l : List α) : l.eraseDups.find? p = l.find? p := by
  induction l using List.reverseRecOn with
  | nil => rfl
  | append_singleton l a ih =>
    rw [eraseDups_concat, List.find?_append, List.find?_append, ih]
    by_cases hmem : a ∈ l
    · cases hfind : l.find? p with
      | some b => simp
      | none =>
        have ha : ¬p a = true := List.find?_eq_none.mp hfind a hmem
        simp [hmem, ha]
    · simp [hmem]

theorem pairwise_idxOf_eraseDups (l : List α) :
    l.eraseDups.Pairwise fun a b => l.idxOf a < l.idxOf b := by
  induction l using List.reverseRecOn with
  | nil => exact List.Pairwise.nil
  | append_singleton l a ih =>
    have hbefore : ∀ b ∈ l.eraseDups, (l ++ [a]).idxOf b = l.idxOf b := fun b hb =>
      List.idxOf_append_of_mem (List.mem_eraseDups.mp hb)
    rw [eraseDups_concat, List.pairwise_append]
    refine ⟨ih.imp_of_mem fun hb hc hlt => ?_, ?_, fun b hb c hc => ?_⟩
    · rwa [hbefore _ hb, hbefore _ hc]
    · split
      · exact List.Pairwise.nil
      · exact List.pairwise_singleton _ _
    · split at hc
      · cases hc
      · next hmem =>
        rw [List.mem_singleton.mp hc, hbefore b hb, List.idxOf_append_of_notMem hmem]
        exact Nat.lt_add_right _ (List.idxOf_lt_length_of_mem (List.mem_eraseDups.mp hb))

end SearchPath

theorem Text.piecesOf_eq_splitOn (sep : Char) (cs : List Char) :
    piecesOf sep cs = cs.splitOn sep := by
  induction cs with
  | nil => rfl
  | cons c cs ih =>
    rw [piecesOf, ih, List.splitOn, List.splitOn, List.splitOnP_cons_eq_if_modifyHead]
    by_cases hc : c = sep
    · simp [hc]
    · cases hsplit : List.splitOnP (· == sep) cs <;> simp_all

namespace SearchPath

variable {w : World} {path name place dir : String}

/-- The texts between the colons of a search path. Some may be empty, and some may come again. -/
def components (path : String) : List String :=
  (path.toList.splitOn ':').map String.ofList

/-- The first hit of a name on the way through some directories. Empty ones are passed over. -/
def firstHit (w : World) (name : String) : List String → Option String
  | [] => none
  | dir :: dirs =>
    if dir = "" then firstHit w name dirs
    else if w.isExecutable (Path.join dir name) then some (Path.join dir name)
    else firstHit w name dirs

theorem firstHit_eq (w : World) (name : String) (dirs : List String) : firstHit w name dirs =
    ((dirs.filter (!·.isEmpty)).map (Path.join · name)).find? w.isExecutable := by
  induction dirs with
  | nil => rfl
  | cons dir dirs ih =>
    unfold firstHit
    by_cases hdir : dir = ""
    · simp [hdir, ih]
    · by_cases hexec : w.isExecutable (Path.join dir name) = true <;> simp [hdir, hexec, ih]

theorem directories_eq (path : String) :
    directories path = (components path).eraseDups.filter (!·.isEmpty) := by
  rw [directories, Text.pieces, Text.piecesOf_eq_splitOn, eraseDups_filter, components]

theorem mem_directories : dir ∈ directories path ↔ dir ∈ components path ∧ dir ≠ "" := by
  simp [directories_eq, List.mem_eraseDups]

theorem pairwise_directories (path : String) : (directories path).Pairwise fun a b =>
    (components path).idxOf a < (components path).idxOf b := by
  rw [directories_eq]
  exact (pairwise_idxOf_eraseDups _).filter _

theorem find_eq_firstHit (hne : name ≠ "") (hname : '/' ∉ name.toList) :
    find w path name = firstHit w name (components path) := by
  have hfind : find w path name =
      ((directories path).map (Path.join · name)).find? w.isExecutable := by
    simp [find, hne, hname]
  rw [hfind, firstHit_eq, directories_eq, ← eraseDups_filter, List.find?_map, List.find?_map,
    find?_eraseDups]

theorem find_eq_some_of_slash (hname : '/' ∈ name.toList) :
    find w path name = some place ↔ place = name ∧ w.LeadsToProgram name := by
  have hne : name ≠ "" := by
    rintro rfl
    cases hname
  have hfind : find w path name = if w.isExecutable name then some name else none := by
    simp [find, hne, hname]
  rw [← World.isExecutable_iff, hfind]
  by_cases hexec : w.isExecutable name = true <;> simp [hexec, eq_comm]

end SearchPath

/-! Programs are started by what was found. -/

def Engine.starting {τ : Type} (e : Engine τ) (programs : Programs) : Engine τ :=
  { e with programs := programs }

/-- The programs are the same for every path with a slash. What becomes of other names, whether they
are looked for or not, is left open. -/
def Programs.SameByPath (programs programs' : Programs) : Prop :=
  ∀ l : Launch, '/' ∈ l.path.toList → programs' l = programs l

namespace Job

variable {τ : Type} {e : Engine τ} {programs : Programs}

theorem launch_starting (h : e.programs.SameByPath programs) (c : Command) (last : Bool)
    {path : String} (hpath : '/' ∈ path.toList) (out err : Option Nat) :
    launch (e.starting programs) c last path out err = launch e c last path out err := by
  have hrun : ∀ j : Job τ, (e.starting programs).programs
      (j.launchFor (e.starting programs) c last path out err) =
      e.programs (j.launchFor e c last path out err) := fun _ => h _ hpath
  unfold launch
  simp only [hrun]
  rfl

theorem runProcess_starting (h : e.programs.SameByPath programs) (c : Command) (last : Bool) :
    runProcess (e.starting programs) c last = runProcess e c last := by
  rw [runProcess_eq, runProcess_eq]
  funext j
  rw [Attempt.bind_of_ok (Attempt.get_apply j), Attempt.bind_of_ok (Attempt.get_apply j)]
  cases hlocate : j.shell.locate c.name with
  | none => rfl
  | some path => simp only [launch_starting h c last (SearchPath.locationOf_of_find hlocate).slash]

/-- A step of a pipeline: a process is started by the path that was found, and the other two kinds
of stages start nothing. -/
theorem runStage_starting (h : e.programs.SameByPath programs) (c : Command) (last : Bool) :
    runStage (e.starting programs) c last = runStage e c last := by
  simp only [runStage, runProcess_starting h]
  rfl

theorem runStages_starting (h : e.programs.SameByPath programs) (cs : List Command) :
    runStages (e.starting programs) cs = runStages e cs := by
  induction cs with
  | nil => rfl
  | cons c cs ih => rw [runStages, runStages, runStage_starting h, ih]

end Job

theorem Pipeline.execute_starting {τ : Type} {e : Engine τ} {programs : Programs}
    (h : e.programs.SameByPath programs) (p : Pipeline) (s : Shell τ) :
    p.execute (e.starting programs) s = p.execute e s := by
  simp only [Pipeline.execute, Job.run, Job.runStages_starting h]
  rfl

theorem Shell.takes_spawns {τ : Type} {s : Shell τ} {name place : String}
    (hbuiltin : s.registry.isBuiltin name = false) (h : s.locate name = some place) :
    s.Takes name (.spawns place) := by
  have hne : name ≠ "" := by
    rintro rfl
    simp [locate, SearchPath.find] at h
  have hget : s.registry.get? name = none := by
    simpa [Registry.isBuiltin_eq hne] using hbuiltin
  rw [takes_iff hne, course, hget, h]

namespace SearchPath

/-- A name without a slash is found at the first hit among the components of the search path, and
the directories are these components, each at its first place. Whatever is found is a program with a
slash in its path. It is what a stage of the name spawns, if that is no builtin, and no pipeline
ever starts a program by anything but such a path. -/
theorem find_walks (w : World) (path name : String) :
    (name ≠ "" → '/' ∉ name.toList →
      find w path name = firstHit w name (components path)) ∧
    ((directories path).Pairwise fun a b =>
      (components path).idxOf a < (components path).idxOf b) ∧
    (∀ dir, dir ∈ directories path ↔ dir ∈ components path ∧ dir ≠ "") ∧
    (∀ place, find w path name = some place →
      w.LeadsToProgram place ∧ '/' ∈ place.toList ∧
        ∀ (τ : Type) (s : Shell τ), s.world = w → s.searchPath = path →
          s.registry.isBuiltin name = false → s.Takes name (.spawns place)) ∧
    ('/' ∈ name.toList → ∀ place,
      find w path name = some place ↔ place = name ∧ w.LeadsToProgram name) ∧
    ∀ (τ : Type) (e : Engine τ) (programs : Programs), e.programs.SameByPath programs →
      ∀ (p : Pipeline) (s : Shell τ), p.execute (e.starting programs) s = p.execute e s := by
  refine ⟨find_eq_firstHit, pairwise_directories path, fun dir => mem_directories,
    fun place h => ⟨?_, (locationOf_of_find h).slash, ?_⟩, fun hname place => ?_,
    fun τ e programs h p s => Pipeline.execute_starting h p s⟩
  · exact World.isExecutable_iff.mp (isExecutable_of_find h).1
  · rintro τ s rfl rfl hbuiltin
    exact Shell.takes_spawns hbuiltin h
  · exact find_eq_some_of_slash hname

/-- An empty component, one that leads nowhere, and one that comes twice. -/
theorem find_walks_again : components ":/none:/bin:/bin" = ["", "/none", "/bin", "/bin"] ∧
    directories ":/none:/bin:/bin" = ["/none", "/bin"] ∧
    firstHit looping "e" ["", "/none", "/bin", "/bin"] = some "/bin/e" ∧
    looping.LeadsToProgram "/bin/e" ∧
    (Shell.start looping (Registry.empty : Registry Unit) (some ":/none:/bin:/bin") (.empty 0) ""
      (.text "")).Takes "e" (.spawns "/bin/e") := by
  have hcomponents : components ":/none:/bin:/bin" = ["", "/none", "/bin", "/bin"] := by decide
  have hfind : find looping ":/none:/bin:/bin" "e" = some "/bin/e" := by decide +kernel
  obtain ⟨hfirst, -, -, hfound, -⟩ := find_walks looping ":/none:/bin:/bin" "e"
  obtain ⟨hleads, -, hspawns⟩ := hfound "/bin/e" hfind
  refine ⟨hcomponents, by decide, ?_, hleads, hspawns Unit _ rfl rfl rfl⟩
  rw [← hcomponents, ← hfirst (by decide) (by decide), hfind]

end SearchPath

end PipelineShell
