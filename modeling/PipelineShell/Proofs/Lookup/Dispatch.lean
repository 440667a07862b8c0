import PipelineShell.Builtin.Run
import PipelineShell.Proofs.Completion.Folding
import PipelineShell.Proofs.Lookup.Listing
import PipelineShell.Proofs.Replay.Lines

/-! What `type` and `which` say of a name, and what a stage of that name does. Each of the two
builtins looks the name up by itself, and so does the stage; they come to the same. -/

namespace PipelineShell

open Builtin (Meaning meaning)

/-- What a stage with a name comes down to. -/
inductive Course (τ : Type)
  | calls (tag : τ)
  | spawns (path : String)
  | unknown

namespace Course

variable {τ : Type}

def meaning : Course τ → Meaning
  | calls _ => .builtin
  | spawns path => .program path
  | unknown => .nothing

/-- The targets of the stage are opened before the handler is called or the process is started, and
the words that the process gets are the name and the arguments. -/
def run (e : Engine τ) (c : Command) (last : Bool) : Course τ → Job.Step τ Unit
  | calls tag => Job.runBuiltin e tag c last
  | spawns path => do
    let out ← Job.openDestination c.redirection.stdout
    let err ← Job.openDestination c.redirection.stderr
    Job.launch e c last path out err
  | unknown => throw (.shell (.unknownCommand c.name))

end Course

def Shell.Takes {τ : Type} (s : Shell τ) (name : String) (k : Course τ) : Prop :=
  ∀ (e : Engine τ) (c : Command) (last : Bool) (j : Job τ), c.name = name → j.shell = s →
    Job.runStage e c last j = k.run e c last j

/-- The course that the tables of the shell give a name. -/
def Shell.course {τ : Type} (s : Shell τ) (name : String) : Course τ :=
  match s.registry.get? name, s.locate name with
  | some tag, _ => .calls tag
  | none, some path => .spawns path
  | none, none => .unknown

theorem Registry.isBuiltin_eq {α : Type} {r : Registry α} {name : String} (h : name ≠ "") :
    r.isBuiltin name = (r.get? name).isSome := by
  simp [isBuiltin, h]

theorem Registry.get?_congr {α : Type} (r : Registry α) {name other : String}
    (h : Text.fold name = Text.fold other) : r.get? name = r.get? other := by
  rw [get?, get?, h]

namespace Shell

variable {τ : Type} {s : Shell τ} {name : String} {k : Course τ}

theorem meaning_eq (hname : name ≠ "") : meaning s name = (s.course name).meaning := by
  rw [meaning, course, Registry.isBuiltin_eq hname]
  cases s.registry.get? name with
  | some tag => rfl
  | none => cases s.locate name <;> rfl

theorem takes_course (s : Shell τ) (hname : name ≠ "") : s.Takes name (s.course name) := by
  rintro e c last j rfl rfl
  have hc : c.isEmpty = false := by simpa [Command.isEmpty] using hname
  have hbuiltin := Registry.isBuiltin_eq (r := j.shell.registry) hname
  unfold course
  cases hget : j.shell.registry.get? c.name with
  | some tag =>
    have htag : j.shell.registry.resolve c.name = .ok tag := by rw [Registry.resolve, hget]
    exact Job.runStage_of_resolve hc (by rw [hbuiltin, hget]; rfl) htag
  | none =>
    rw [Job.runStage_of_program hc (by rw [hbuiltin, hget]; rfl), Job.runProcess_eq,
      Attempt.bind_of_ok (Attempt.get_apply j)]
    cases j.shell.locate c.name <;> rfl

end Shell

/-! No name has two courses: a run in which handlers and programs fail tells one from another. -/

namespace Course

open Classical Attempt

variable {τ : Type}

/-- What a stage fails with where the handler or the program of one course fails unlike any
other. -/
noncomputable def sign (k : Course τ) (name : String) : Course τ → Failure
  | calls tag => .shell (.cannotRedirect (if k = calls tag then "this" else "other") (.other ""))
  | spawns path =>
    if FileTree.isPath name then
      .shell (.cannotExecute name (.ofRefusal (if k = spawns path then .busy else .denied)))
    else .fault .nulByte
  | unknown => .shell (.unknownCommand name)

noncomputable def telling (k : Course τ) : Engine τ where
  handler tag _ :=
    throw (.shell (.cannotRedirect (if k = calls tag then "this" else "other") (.other "")))
  programs l := .error (if k = spawns l.path then .busy else .denied)
  chunkSize := 0
  host := .ample

theorem run_telling (k k' : Course τ) (s : Shell τ) (name : String) :
    ∃ j, k'.run k.telling ⟨name, [], .none⟩ false (Job.start s) = .error (k.sign name k') j := by
  cases k' with
  | unknown => exact ⟨_, rfl⟩
  | calls tag =>
    have hinvoke : Shell.invoke k.telling tag ⟨name, [], .none⟩ ((Job.start s).builtinShell false) =
        .error (k.sign name (calls tag)) ((Job.start s).builtinShell false) := rfl
    have hrun := Job.runBuiltin_apply (e := k.telling) tag ⟨name, [], .none⟩ false (Job.start s)
    rw [hinvoke] at hrun
    exact ⟨_, hrun⟩
  | spawns path =>
    refine ⟨Job.start s, ?_⟩
    have hopen : (spawns path).run k.telling ⟨name, [], .none⟩ false (Job.start s) =
        Job.launch k.telling ⟨name, [], .none⟩ false path none none (Job.start s) := rfl
    have hall : ([name] : List String).all FileTree.isPath = FileTree.isPath name := by simp
    rw [hopen, sign]
    cases hname : FileTree.isPath name with
    | false =>
      rw [Job.launch, hall, hname]
      rfl
    | true =>
      have hbusy : (Job.start s).isBusy path = false := by
        unfold Job.isBusy
        split <;> rfl
      rw [Job.launch_apply (c := ⟨name, [], .none⟩) (hall.trans hname), Job.launching, hbusy]
      rfl

theorem eq_of_sign {k k' : Course τ} {name : String}
    (hpath : ∀ path, k = spawns path → FileTree.isPath name = true)
    (h : k.sign name k' = k.sign name k) : k' = k := by
  cases k with
  | unknown => cases k' <;> grind [sign]
  | calls tag => cases k' <;> grind [sign]
  | spawns path =>
    have hname := hpath path rfl
    cases k' with
    | unknown => simp [sign, hname] at h
    | calls tag => simp [sign, hname] at h
    | spawns path' =>
      by_contra hne
      have hne' : ¬spawns path = spawns path' := fun he => hne he.symm
      simp [sign, hname, hne', Cause.ofRefusal, Refusal.number] at h

end Course

/-! Where a name is located. -/

/-- A name with a slash is a path, and any other is found on a path with a slash. -/
def LocationOf (name path : String) : Prop :=
  if '/' ∈ name.toList then path = name else '/' ∈ path.toList

theorem LocationOf.slash {name path : String} (h : LocationOf name path) : '/' ∈ path.toList := by
  unfold LocationOf at h
  split at h
  · next hname => exact h ▸ hname
  · exact h

theorem Path.subset_join (dir name : String) : name.toList ⊆ (Path.join dir name).toList := by
  unfold Path.join
  split
  · exact List.Subset.refl _
  · split <;> simp

theorem Path.slash_mem_join {dir name : String} (hdir : dir ≠ "") (hname : '/' ∉ name.toList) :
    '/' ∈ (Path.join dir name).toList := by
  unfold Path.join
  rw [if_neg (by simp [not_startsWith_slash hname])]
  split
  · next h =>
    have hend : dir.endsWith "/" = true := by simpa [hdir] using h
    have hlast := endsWith_slash_iff.mp hend
    simp [List.mem_of_getLast? hlast]
  · simp

theorem SearchPath.isExecutable_of_find {w : World} {path name place : String}
    (h : find w path name = some place) : w.isExecutable place = true ∧
      (place = name ∧ '/' ∈ name.toList ∨
        '/' ∉ name.toList ∧ ∃ dir, dir ≠ "" ∧ place = Path.join dir name) := by
  unfold find at h
  split at h
  · cases h
  · split at h
    · next hslash =>
      split at h
      · next hexec =>
        cases h
        exact ⟨hexec, .inl ⟨rfl, by simpa using hslash⟩⟩
      · cases h
    · next hslash =>
      obtain ⟨dir, hdir, rfl⟩ := List.mem_map.mp (List.mem_of_find?_eq_some h)
      have hname : '/' ∉ name.toList := by simpa using hslash
      have hne : dir ≠ "" := ne_empty_of_mem_directories hdir
      exact ⟨List.find?_some h, .inr ⟨hname, dir, hne, rfl⟩⟩

theorem SearchPath.locationOf_of_find {w : World} {path name place : String}
    (h : find w path name = some place) : LocationOf name place := by
  unfold LocationOf
  rcases (isExecutable_of_find h).2 with ⟨rfl, hslash⟩ | ⟨hslash, dir, hdir, rfl⟩
  · rw [if_pos hslash]
  · rw [if_neg hslash]
    exact Path.slash_mem_join hdir hslash

theorem SearchPath.isPath_of_find {w : World} {path name place : String}
    (h : find w path name = some place) : FileTree.isPath name = true := by
  obtain ⟨hexec, hplace⟩ := isExecutable_of_find h
  have hpath : FileTree.isPath place = true := by
    by_contra hno
    simp [World.isExecutable, FileTree.isExecutable, FileTree.entry?, hno] at hexec
  rcases hplace with ⟨rfl, -⟩ | ⟨-, dir, -, rfl⟩
  · exact hpath
  · exact FileTree.isPath_of_subset (Path.subset_join dir name) hpath

theorem Shell.takes_iff {τ : Type} {s : Shell τ} {name : String} {k : Course τ}
    (hname : name ≠ "") : s.Takes name k ↔ k = s.course name := by
  refine ⟨fun h => ?_, fun h => h ▸ takes_course s hname⟩
  refine @Course.eq_of_sign _ _ _ name (fun path hpath => ?_) ?_
  · have hlocate : s.locate name = some path := by
      unfold course at hpath
      split at hpath <;> cases hpath
      assumption
    exact SearchPath.isPath_of_find hlocate
  · obtain ⟨j, hj⟩ := (s.course name).run_telling k s name
    obtain ⟨j', hj'⟩ := (s.course name).run_telling (s.course name) s name
    have hstage := h (s.course name).telling ⟨name, [], .none⟩ false (Job.start s) rfl rfl
    have hsame := hstage.symm.trans (takes_course s hname _ _ _ _ rfl rfl)
    rw [hj, hj'] at hsame
    exact (EStateM.Result.error.inj hsame).1

/-! What the two builtins say. -/

namespace Builtin

/-- The line by which `type` tells what a name stands for. -/
def typeLine (name : String) : Meaning → Stream × String
  | .builtin => (.stdout, name ++ " is a shell builtin")
  | .program path => (.stdout, name ++ " is " ++ path)
  | .nothing => (.stderr, name ++ ": not found")

def whichLine (name : String) : Meaning → Stream × String
  | .builtin => (.stdout, name ++ ": shell builtin")
  | .program path => (.stdout, path)
  | .nothing => (.stderr, "which: no " ++ name ++ " in PATH")

/-- A program is where a name of this kind can be found. -/
def Meaning.Fits (name : String) (m : Meaning) : Prop :=
  ∀ path, m = .program path → LocationOf name path

/-- No two things that a name can stand for are told by the same line. -/
def Unambiguous (line : String → Meaning → Stream × String) : Prop :=
  ∀ name m m', m.Fits name → m'.Fits name → line name m = line name m' → m = m'

theorem unambiguous_of_ne {line : String → Meaning → Stream × String}
    (hstream : ∀ name m, (line name m).1 = .stderr ↔ m = .nothing)
    (hbuiltin : ∀ name path, LocationOf name path →
      (line name .builtin).2 ≠ (line name (.program path)).2)
    (hprogram : ∀ name path path',
      (line name (.program path)).2 = (line name (.program path')).2 → path = path') :
    Unambiguous line := by
  intro name m m' hm hm' h
  have hnothing : m = .nothing ↔ m' = .nothing := by
    rw [← hstream name m, ← hstream name m', h]
  have htext := congrArg Prod.snd h
  cases m with
  | nothing => exact (hnothing.mp rfl).symm
  | builtin =>
    cases m' with
    | builtin => rfl
    | program path => exact (hbuiltin name path (hm' path rfl) htext).elim
    | nothing => exact hnothing.mpr rfl
  | program path =>
    cases m' with
    | builtin => exact (hbuiltin name path (hm path rfl) htext.symm).elim
    | program path' => exact congrArg Meaning.program (hprogram name path path' htext)
    | nothing => exact hnothing.mpr rfl

theorem unambiguous_typeLine : Unambiguous typeLine := by
  refine unambiguous_of_ne (fun name m => ?_) (fun name path hpath h => ?_)
    fun name path path' h => ?_
  · cases m <;> simp [typeLine]
  · have hrest : "a shell builtin".toList = path.toList := by
      simpa [typeLine] using congrArg String.toList h
    have hslash := hpath.slash
    rw [← hrest] at hslash
    revert hslash
    decide
  · simpa [typeLine] using h

theorem unambiguous_whichLine : Unambiguous whichLine := by
  refine unambiguous_of_ne (fun name m => ?_) (fun name path hpath h => ?_) fun _ _ _ => id
  · cases m <;> simp [whichLine]
  · obtain rfl : name ++ ": shell builtin" = path := h
    unfold LocationOf at hpath
    split at hpath
    · have hlength := congrArg String.length hpath
      simp at hlength
    · next hname => simp [hname] at hpath

end Builtin

namespace Shell

variable {τ : Type} {s : Shell τ} {name : String}

/-- Asked for the name the builtin writes this line, wherever its output and errors go, and does
nothing else. -/
def Says (s : Shell τ) (h : Handler τ) (name : String) (line : Stream × String) : Prop :=
  ∀ w : Wiring, h [name] { s with wiring := w } =
    (do printLine line.1 line.2; pure true : Shell.Step τ Bool) { s with wiring := w }

theorem says_type (s : Shell τ) (name : String) :
    s.Says (Builtin.run .type) name (Builtin.typeLine name (meaning s name)) := by
  intro w
  have hmeaning : meaning { s with wiring := w } name = meaning s name := rfl
  change Builtin.runType [name] _ = _
  rw [Builtin.runType, Attempt.bind_of_ok (Attempt.get_apply _), hmeaning]
  cases meaning s name <;> rfl

theorem says_which (s : Shell τ) (name : String) :
    s.Says (Builtin.run .which) name (Builtin.whichLine name (meaning s name)) := by
  intro w
  have hmeaning : meaning { s with wiring := w } name = meaning s name := rfl
  change Builtin.runWhich [name] _ = _
  rw [Builtin.runWhich, Attempt.bind_of_ok (Attempt.get_apply _), hmeaning]
  cases meaning s name <;> rfl

def hearing : Stream → Wiring
  | .stdout => ⟨.own, .captured, .errors⟩
  | .stderr => ⟨.own, .output, .captured⟩

theorem captured_hearing (s : Shell τ) (stream : Stream) (line : Stream × String) :
    ((do printLine line.1 line.2; pure true : Shell.Step τ Bool).final
      { s with wiring := hearing stream }).captured =
        if line.1 = stream then s.captured ++ line.2 ++ "\n" else s.captured := by
  obtain ⟨_ | _, text⟩ := line <;> cases stream <;> rfl

theorem Says.unique {h : Handler τ} {line line' : Stream × String} (hl : s.Says h name line)
    (hl' : s.Says h name line') : line = line' := by
  have hsame := (hl (hearing line.1)).symm.trans (hl' (hearing line.1))
  have hheard := captured_hearing s line.1 line
  have hheard' := captured_hearing s line.1 line'
  unfold Attempt.final at hheard hheard'
  rw [hsame, hheard', if_pos rfl] at hheard
  have htext := congrArg String.toList hheard
  by_cases hstream : line'.1 = line.1
  · rw [if_pos hstream] at htext
    exact Prod.ext hstream.symm (String.toList_injective (by simpa using htext.symm))
  · rw [if_neg hstream] at htext
    simp at htext

/-- What the builtin says of the name is what comes of a stage of that name. -/
structure Tells (s : Shell τ) (h : Handler τ) (line : String → Meaning → Stream × String)
    (name : String) : Prop where
  builtin : s.Says h name (line name .builtin) ↔ ∃ tag, s.Takes name (.calls tag)
  program : ∀ path, LocationOf name path →
    (s.Says h name (line name (.program path)) ↔ s.Takes name (.spawns path))
  nothing : s.Says h name (line name .nothing) ↔ s.Takes name .unknown

theorem fits_course (s : Shell τ) (name : String) : (s.course name).meaning.Fits name := by
  intro path hpath
  unfold course at hpath
  split at hpath <;> cases hpath
  exact SearchPath.locationOf_of_find ‹_›

theorem tells_of_line {h : Handler τ} {line : String → Meaning → Stream × String}
    (hname : name ≠ "") (hline : Builtin.Unambiguous line)
    (htold : s.Says h name (line name (meaning s name))) : s.Tells h line name := by
  rw [meaning_eq hname] at htold
  have hiff : ∀ m : Meaning, m.Fits name →
      (s.Says h name (line name m) ↔ m = (s.course name).meaning) := fun m hm =>
    ⟨fun hm' => hline name _ _ hm (fits_course s name) (hm'.unique htold), fun he => he ▸ htold⟩
  refine ⟨?_, fun path hpath => ?_, ?_⟩
  · rw [hiff _ (by rintro _ ⟨⟩)]
    simp only [takes_iff hname]
    cases s.course name <;> simp [Course.meaning]
  · rw [hiff _ (by rintro _ ⟨⟩; exact hpath), takes_iff hname]
    cases s.course name <;> simp [Course.meaning]
  · rw [hiff _ (by rintro _ ⟨⟩), takes_iff hname]
    cases s.course name <;> simp [Course.meaning]

theorem takes_calls_iff (hname : name ≠ "") {tag : τ} :
    s.Takes name (.calls tag) ↔ s.registry.get? name = some tag := by
  rw [takes_iff hname, course]
  cases s.registry.get? name with
  | some t => simp [eq_comm]
  | none => cases s.locate name <;> simp

/-- Every name but the empty one has one course, and `type` and `which` tell it. A builtin is called
by every name of the same folding, whatever the files and the search path are. The failure that
tells of an unknown name comes of the lookup, or else of a builtin that was called and raised it. -/
theorem lookups_tell_course (s : Shell τ) {name : String} (hname : name ≠ "") :
    (∃! k, s.Takes name k) ∧
      s.Tells (Builtin.run .type) Builtin.typeLine name ∧
      s.Tells (Builtin.run .which) Builtin.whichLine name ∧
      (∀ path, s.Takes name (.spawns path) → LocationOf name path) ∧
      (∀ tag, s.Takes name (.calls tag) ↔
        s.registry.entries.lookup (Text.fold name) = some tag) ∧
      (∀ (t : Shell τ) other tag, t.registry = s.registry → Text.fold other = Text.fold name →
        s.Takes name (.calls tag) → t.Takes other (.calls tag)) ∧
      ∀ (e : Engine τ) (c : Command) (last : Bool) (j j' : Job τ), c.name = name → j.shell = s →
        Job.runStage e c last j = .error (.shell (.unknownCommand name)) j' →
        s.Takes name .unknown ∨ ∃ tag entry u, Job.Enters c last j tag entry ∧
          e.handler tag c.args entry = .error (.shell (.unknownCommand name)) u := by
  refine ⟨⟨s.course name, takes_course s hname, fun k hk => (takes_iff hname).mp hk⟩,
    tells_of_line hname Builtin.unambiguous_typeLine (says_type s name),
    tells_of_line hname Builtin.unambiguous_whichLine (says_which s name),
    fun path hpath => ?_, fun tag => takes_calls_iff hname, ?_, ?_⟩
  · have hfits := fits_course s name
    rw [← (takes_iff hname).mp hpath] at hfits
    exact hfits path rfl
  · intro t other tag hregistry hfold htag
    have hother : other ≠ "" := by
      rintro rfl
      exact hname (Text.fold_eq_empty_iff.mp (hfold.symm.trans rfl))
    rw [takes_calls_iff hother, hregistry, Registry.get?_congr _ hfold]
    exact (takes_calls_iff hname).mp htag
  · rintro e c last j j' rfl rfl hfail
    cases Job.raises_of_runStage hfail with
    | unknown hc hb hl =>
      rw [Registry.isBuiltin_eq hname, Option.isSome_eq_false_iff, Option.isNone_iff_eq_none] at hb
      rw [takes_iff hname, course, hb, hl]
      exact .inl rfl
    | handler hentry hraised => exact .inr ⟨_, _, _, hentry, hraised⟩

end Shell

namespace Lookup

def trialShell : Shell CommandTag :=
  .start ⟨⟨[(["d"], .directory)], 4096⟩, [], [], ⟨2024, 1, 1, 0, 0, 0, 0⟩, [], ⟨none, []⟩⟩
    ⟨[("echo", .inl .echo), ("refuse", .inr .refuse)]⟩ none (.empty 0) "" (.text "")

def failure (v : EStateM.Result Failure (Shell CommandTag) Bool) : Option Failure :=
  match v with
  | .ok _ _ => none
  | .error f _ => some f

theorem lookups_tell_course_trial : "refuse" ≠ "" ∧ (∃! k, trialShell.Takes "refuse" k) ∧
    trialShell.Takes "refuse" (.calls (.inr .refuse)) ∧
    trialShell.Says (Builtin.run .type) "refuse" (.stdout, "refuse is a shell builtin") ∧
    trialShell.Says (Builtin.run .which) "refuse" (.stdout, "refuse: shell builtin") := by
  have hname : "refuse" ≠ "" := by decide
  obtain ⟨hone, htype, hwhich, -, hcalls, -⟩ := Shell.lookups_tell_course trialShell hname
  have htag : trialShell.registry.entries.lookup (Text.fold "refuse") = some (.inr .refuse) := by
    decide
  have htakes := (hcalls (.inr .refuse)).mpr htag
  exact ⟨hname, hone, htakes, htype.builtin.mpr ⟨_, htakes⟩, hwhich.builtin.mpr ⟨_, htakes⟩⟩

/-- A builtin can raise the failure that tells of an unknown name, even of its own. Where a target
cannot be opened, the builtin is not called, whatever it is. Of neither do `type` and `which`
know. -/
theorem called_unknown_or_uncalled :
    failure (Pipeline.execute ⟨Session.runCommand, fun _ => .error .noEntry, 1, .ample⟩
        ⟨⟨"refuse", ["refuse"], .none⟩, []⟩ trialShell) =
          some (.shell (.unknownCommand "refuse")) ∧
      ¬trialShell.Says (Builtin.run .type) "refuse" (Builtin.typeLine "refuse" .nothing) ∧
      ¬trialShell.Says (Builtin.run .which) "refuse" (Builtin.whichLine "refuse" .nothing) ∧
      (∀ handler, failure (Pipeline.execute ⟨handler, fun _ => .error .noEntry, 1, .ample⟩
        ⟨⟨"echo", [], ⟨⟨some "d", false⟩, ⟨none, false⟩⟩⟩, []⟩ trialShell) =
          some (.shell (.cannotRedirect "d" (.ofRefusal .isDirectory)))) ∧
      trialShell.Says (Builtin.run .type) "echo" (Builtin.typeLine "echo" .builtin) ∧
      trialShell.Says (Builtin.run .which) "echo" (Builtin.whichLine "echo" .builtin) := by
  have hrefuse : Builtin.meaning trialShell "refuse" = .builtin := by decide
  have hecho : Builtin.meaning trialShell "echo" = .builtin := by decide
  have htype := Shell.says_type trialShell
  have hwhich := Shell.says_which trialShell
  refine ⟨by decide +kernel, fun h => ?_, fun h => ?_, fun handler => by with_unfolding_all rfl, hecho ▸ htype _,
    hecho ▸ hwhich _⟩
  · have hline := h.unique (htype "refuse")
    rw [hrefuse] at hline
    cases hline
  · have hline := h.unique (hwhich "refuse")
    rw [hrefuse] at hline
    cases hline

end Lookup

end PipelineShell
