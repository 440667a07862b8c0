import Mathlib.Data.List.Induction
import Mathlib.Data.List.Sort
import Mathlib.Data.String.Basic
import PipelineShell.FileMatches
import PipelineShell.Proofs.Filenames.Entries

/-! The files that a path which was begun may become: one match for each entry of the directory with
a name that begins so, and a match that is a directory may be begun again. -/

namespace PipelineShell

namespace Path

def slashes (k : Nat) : String :=
  String.ofList (List.replicate k '/')

/-- A path, its directory part and the name at its end. The slashes between the two belong to
neither, unless nothing else stands before the name. -/
inductive Parts : String → String → String → Prop
  | name {name : String} (hname : '/' ∉ name.toList) : Parts name "" name
  | root (k : Nat) {name : String} (hname : '/' ∉ name.toList) :
      Parts (slashes (k + 1) ++ name) (slashes (k + 1)) name
  | under {dir : String} (k : Nat) {name : String} (hdir : dir ≠ "")
      (hend : dir.toList.getLast? ≠ some '/') (hname : '/' ∉ name.toList) :
      Parts (dir ++ slashes (k + 1) ++ name) dir name

variable {path dir name : String}

theorem toList_slashes_append (k : Nat) (name : String) :
    (slashes (k + 1) ++ name).toList = List.replicate k '/' ++ '/' :: name.toList := by
  simp [slashes, List.replicate_succ']

theorem dropWhile_slashes {front : List Char} (hfront : front.getLast? ≠ some '/') (k : Nat) :
    (front ++ List.replicate k '/').reverse.dropWhile (· == '/') = front.reverse := by
  rw [List.reverse_append, List.reverse_replicate,
    List.dropWhile_append_of_pos (by simp [List.mem_replicate])]
  rw [List.getLast?_eq_head?_reverse] at hfront
  cases hrev : front.reverse with
  | nil => rfl
  | cons c cs =>
    have hc : c ≠ '/' := by simpa [hrev] using hfront
    simp [hc]

theorem Parts.split_eq (h : Parts path dir name) : split path = (dir, name) := by
  cases h with
  | name hname => exact split_of_not_mem hname
  | root k hname =>
    rw [Path.split_eq (toList_slashes_append k name) hname]
    simp [slashes, List.replicate_succ']
  | under k hdir hend hname =>
    have hpath : (dir ++ slashes (k + 1) ++ name).toList =
        (dir.toList ++ List.replicate k '/') ++ '/' :: name.toList := by
      rw [String.append_assoc, String.toList_append, toList_slashes_append, List.append_assoc]
    rw [Path.split_eq hpath hname, dropWhile_slashes hend]
    simp [hdir]

theorem exists_slashes (cs : List Char) : ∃ front k, cs = front ++ List.replicate k '/' ∧
    front.getLast? ≠ some '/' := by
  induction cs using List.reverseRecOn with
  | nil => exact ⟨[], 0, rfl, nofun⟩
  | append_singleton cs c ih =>
    by_cases hc : c = '/'
    · obtain ⟨front, k, hcs, hfront⟩ := ih
      refine ⟨front, k + 1, ?_, hfront⟩
      rw [hcs, hc, List.replicate_succ', List.append_assoc]
    · exact ⟨cs ++ [c], 0, by simp, by simpa using hc⟩

theorem exists_parts (path : String) : ∃ dir name, Parts path dir name := by
  by_cases hmem : '/' ∈ path.toList
  · obtain ⟨as, bs, hpath, hbs⟩ := exists_last_slash hmem
    obtain ⟨front, k, rfl, hfront⟩ := exists_slashes as
    have hname : '/' ∉ (String.ofList bs).toList := by simpa using hbs
    have hsplit : path = String.ofList front ++ slashes (k + 1) ++ String.ofList bs := by
      rw [← String.toList_inj, hpath, String.append_assoc, String.toList_append,
        toList_slashes_append]
      simp
    rw [hsplit]
    by_cases hempty : front = []
    · rw [hempty, String.ofList_nil, String.empty_append]
      exact ⟨_, _, .root k hname⟩
    · exact ⟨_, _, .under k (by simpa using hempty) (by simpa using hfront) hname⟩
  · exact ⟨_, _, .name hmem⟩

theorem parts_slash (hpath : path ≠ "") (hend : path.toList.getLast? ≠ some '/') :
    Parts (path ++ "/") path "" := by
  have h : Parts (path ++ slashes 1 ++ "") path "" := .under 0 hpath hend (by simp)
  simpa [slashes] using h

def orHere (dir : String) : String :=
  if dir = "" then "." else dir

def toName (dir name : String) : String :=
  if dir = "" then name else join dir name

theorem exists_toName_eq (dir : String) (hname : FileTree.IsName name) :
    ∃ front, toName dir name = front ++ name := by
  unfold toName join
  rw [not_startsWith_slash hname.slashless]
  split
  · exact ⟨"", by simp⟩
  · split
    · contradiction
    · split
      · exact ⟨dir, rfl⟩
      · exact ⟨dir ++ "/", rfl⟩

theorem toName_ne_empty (dir : String) (hname : FileTree.IsName name) : toName dir name ≠ "" := by
  obtain ⟨front, hfront⟩ := exists_toName_eq dir hname
  simp [hfront, hname.ne_empty]

theorem getLast?_toName (dir : String) (hname : FileTree.IsName name) :
    (toName dir name).toList.getLast? ≠ some '/' := by
  obtain ⟨front, hfront⟩ := exists_toName_eq dir hname
  have hne : name.toList ≠ [] := by simpa using hname.ne_empty
  rw [hfront, String.toList_append, List.getLast?_append_of_ne_nil _ hne]
  exact fun h => hname.slashless (List.mem_of_getLast? h)

end Path

namespace Text

theorem sorted_perm (l : List String) : (sorted l).Perm l :=
  List.mergeSort_perm l _

theorem pairwise_sorted {l : List String} (h : l.Nodup) : (sorted l).Pairwise (· < ·) := by
  have hle : (sorted l).Pairwise (· ≤ ·) := List.pairwise_mergeSort' (· ≤ ·) l
  have hne : (sorted l).Pairwise (· ≠ ·) := (sorted_perm l).nodup_iff.mpr h
  exact (hle.and hne).imp fun h => lt_of_le_of_ne h.1 h.2

end Text

namespace World

variable {w : World} {place : Location} {text dir begun name name' m path : String}

/-- A text shows the entry of a name in a directory: it is a path that leads there, with a slash
behind it if it is a directory and a space if not. If the path is not too long for the system, it is
a path of that entry to the system as well. -/
def Shows (w : World) (place : Location) (name m : String) : Prop :=
  ∃ path, m = path ++ (if w.isDirectory path then "/" else " ") ∧
    w.tree.Leads w.dir path (place ++ [name]) ∧
    (path.utf8ByteSize < FileTree.pathLimit → ∃ e, w.tree.get? (place ++ [name]) = some e ∧
      w.tree.find w.dir path .itself = .ok (.entry (place ++ [name]) e))

/-- The texts show the entries of a directory with names that begin so, in ascending order, each
entry once. -/
structure Matches (w : World) (place : Location) (begun : String) (found : List String) :
    Prop where
  ascending : found.Pairwise (· < ·)
  one : ∀ name, w.tree.get? (place ++ [name]) ≠ none → begun.toList <+: name.toList →
    ∃! m, m ∈ found ∧ w.Shows place name m
  each : ∀ m ∈ found, ∃! name,
    (w.tree.get? (place ++ [name]) ≠ none ∧ begun.toList <+: name.toList) ∧ w.Shows place name m

theorem append_mark_inj {p q : String} {b c : Bool}
    (h : p ++ (if b then "/" else " ") = q ++ (if c then "/" else " ")) : p = q ∧ b = c := by
  have hlist := congrArg String.toList h
  rw [String.toList_append, String.toList_append] at hlist
  have hlength : ∀ d : Bool, (if d then "/" else " ").toList.length = 1 := by decide
  obtain ⟨hpath, hmark⟩ := List.append_inj' hlist ((hlength b).trans (hlength c).symm)
  refine ⟨String.toList_inj.mp hpath, ?_⟩
  revert hmark
  cases b <;> cases c <;> decide

theorem Shows.unique (h : w.Shows place name m) (h' : w.Shows place name' m) : name = name' := by
  obtain ⟨path, hm, hleads, -⟩ := h
  obtain ⟨path', hm', hleads', -⟩ := h'
  obtain ⟨rfl, -⟩ := append_mark_inj (hm.symm.trans hm')
  simpa using hleads.unique hleads'

/-- One text for each name, which shows the entry of that name. -/
theorem matches_sorted (hdistinct : w.tree.Distinct) {shown : String → String}
    (hshown : ∀ name ∈ w.tree.names place, w.Shows place name (shown name)) (begun : String) :
    w.Matches place begun
      (Text.sorted (((w.tree.names place).filter (·.startsWith begun)).map shown)) := by
  have hmem : ∀ name, name ∈ (w.tree.names place).filter (·.startsWith begun) ↔
      w.tree.get? (place ++ [name]) ≠ none ∧ begun.toList <+: name.toList := by
    intro name
    rw [List.mem_filter, FileTree.mem_names, String.startsWith_string_iff]
  have hfound : ∀ m, m ∈ Text.sorted (((w.tree.names place).filter
      (·.startsWith begun)).map shown) ↔ ∃ name,
        (w.tree.get? (place ++ [name]) ≠ none ∧ begun.toList <+: name.toList) ∧ shown name = m := by
    intro m
    rw [(Text.sorted_perm _).mem_iff, List.mem_map]
    simp only [hmem]
  refine ⟨Text.pairwise_sorted ?_, fun name hget hbegins => ?_, fun m hm => ?_⟩
  · refine ((hdistinct.nodup_names place).filter _).map_on fun name hname name' hname' heq => ?_
    have hshows := hshown name (List.mem_of_mem_filter hname)
    exact hshows.unique (heq ▸ hshown name' (List.mem_of_mem_filter hname'))
  · refine ⟨shown name, ⟨(hfound _).mpr ⟨name, ⟨hget, hbegins⟩, rfl⟩,
      hshown name (FileTree.mem_names.mpr hget)⟩, ?_⟩
    rintro m ⟨hm, hshows⟩
    obtain ⟨name', ⟨hget', -⟩, rfl⟩ := (hfound m).mp hm
    rw [hshows.unique (hshown name' (FileTree.mem_names.mpr hget'))]
  · obtain ⟨name, hentry, rfl⟩ := (hfound m).mp hm
    have hshows := hshown name (FileTree.mem_names.mpr hentry.1)
    exact ⟨name, ⟨hentry, hshows⟩, fun name' h => h.2.unique hshows⟩

def matchOf (w : World) (dir name : String) : String :=
  Path.toName dir name ++ if w.isDirectory (Path.toName dir name) then "/" else " "

theorem list_of_enter (h : w.tree.enter w.dir path = .ok place) :
    w.tree.list w.dir path = .ok (w.tree.names place) := by
  rw [FileTree.list, FileTree.enter_ok_iff.mp h]

theorem list_of_enter_error {r : Refusal} (h : w.tree.enter w.dir path = .error r) :
    ∃ r', w.tree.list w.dir path = .error r' := by
  unfold FileTree.enter at h
  unfold FileTree.list
  cases hreach : w.tree.reach w.dir path with
  | error r' => exact ⟨r', rfl⟩
  | ok found =>
    obtain ⟨place, e⟩ := found
    cases e with
    | directory => simp [hreach] at h
    | _ => exact ⟨_, rfl⟩

theorem isDirectory_orHere (ht : w.tree.WellNamed) (hname : FileTree.IsName name) :
    w.isDirectory (Path.join (Path.orHere dir) name) = w.isDirectory (Path.toName dir name) := by
  unfold Path.orHere Path.toName
  by_cases hdir : dir = ""
  · rw [if_pos hdir, if_pos hdir, isDirectory, isDirectory, Bool.eq_iff_iff, ht.isDirectory_iff,
      ht.isDirectory_iff]
    simp only [FileTree.enter_ok_iff, FileTree.reach_ok_iff, FileTree.find_here hname]
  · rw [if_neg hdir, if_neg hdir]

theorem fileMatches_eq (ht : w.tree.WellNamed) (hparts : Path.Parts text dir begun)
    (henter : w.tree.enter w.dir (Path.orHere dir) = .ok place) : w.fileMatches text =
      Text.sorted (((w.tree.names place).filter (·.startsWith begun)).map (w.matchOf dir)) := by
  have hlist := list_of_enter henter
  have hshown : ∀ name ∈ (w.tree.names place).filter (·.startsWith begun),
      (if dir.isEmpty then name else Path.join dir name) ++
        (if w.isDirectory (Path.join (Path.orHere dir) name) then "/" else " ") =
      w.matchOf dir name := by
    intro name hname
    have hisname := ht.isName_of_mem (List.mem_of_mem_filter hname)
    rw [isDirectory_orHere ht hisname]
    simp [matchOf, Path.toName]
  unfold Path.orHere at hlist hshown
  unfold fileMatches
  rw [hparts.split_eq]
  simp only [String.isEmpty_iff] at *
  rw [hlist]
  dsimp only
  rw [List.map_congr_left hshown]

theorem shows_matchOf (ht : w.tree.WellNamed)
    (henter : w.tree.enter w.dir (Path.orHere dir) = .ok place)
    (hname : name ∈ w.tree.names place) : w.Shows place name (w.matchOf dir name) := by
  have hisname := ht.isName_of_mem hname
  obtain ⟨e, hget⟩ := Option.ne_none_iff_exists'.mp (FileTree.mem_names.mp hname)
  have hleads : w.tree.Leads w.dir (Path.toName dir name) (place ++ [name]) := by
    unfold Path.toName
    unfold Path.orHere at henter
    split
    · next hdir =>
      rw [if_pos hdir] at henter
      obtain rfl : place = w.dir := by
        have hhere : w.tree.enter w.dir "." = .ok w.dir := by with_unfolding_all rfl
        exact Except.ok.inj (henter.symm.trans hhere)
      exact FileTree.leads_name hisname hget
    · next hdir =>
      rw [if_neg hdir] at henter
      exact FileTree.leads_join henter hisname hget
  exact ⟨_, rfl, hleads, hleads.exists_find (Path.toName_ne_empty dir hisname)⟩

theorem matches_fileMatches (ht : w.tree.WellNamed) (hparts : Path.Parts text dir begun)
    (henter : w.tree.enter w.dir (Path.orHere dir) = .ok place) :
    w.Matches place begun (w.fileMatches text) := by
  rw [fileMatches_eq ht hparts henter]
  exact matches_sorted ht.distinct (fun name hname => shows_matchOf ht henter hname) begun

theorem fileMatches_of_not_isDirectory (ht : w.tree.WellNamed) (hparts : Path.Parts text dir begun)
    (hdir : w.isDirectory (Path.orHere dir) = false) : w.fileMatches text = [] := by
  cases henter : w.tree.enter w.dir (Path.orHere dir) with
  | ok place =>
    have hyes : w.isDirectory (Path.orHere dir) = true := ht.isDirectory_iff.mpr ⟨place, henter⟩
    simp [hyes] at hdir
  | error r =>
    obtain ⟨r', hlist⟩ := list_of_enter_error henter
    unfold Path.orHere at hlist
    unfold fileMatches
    rw [hparts.split_eq]
    simp only [String.isEmpty_iff]
    rw [hlist]

theorem enter_of_mem_fileMatches (ht : w.tree.WellNamed) (hparts : Path.Parts text dir begun)
    (hmem : path ++ "/" ∈ w.fileMatches text) : path ≠ "" ∧
      path.toList.getLast? ≠ some '/' ∧ ∃ inner, w.tree.enter w.dir path = .ok inner := by
  cases hdir : w.isDirectory (Path.orHere dir) with
  | false =>
    rw [fileMatches_of_not_isDirectory ht hparts hdir] at hmem
    cases hmem
  | true =>
    obtain ⟨place, henter⟩ := ht.isDirectory_iff.mp hdir
    rw [fileMatches_eq ht hparts henter, (Text.sorted_perm _).mem_iff] at hmem
    obtain ⟨name, hname, hm⟩ := List.mem_map.mp hmem
    have hisname := ht.isName_of_mem (List.mem_of_mem_filter hname)
    have hmark : path ++ "/" = path ++ (if true then "/" else " ") := rfl
    rw [matchOf, hmark] at hm
    obtain ⟨rfl, hdirectory⟩ := append_mark_inj hm
    exact ⟨Path.toName_ne_empty dir hisname, Path.getLast?_toName dir hisname,
      ht.isDirectory_iff.mp hdirectory⟩

theorem startsWith_of_mem_fileMatches (ht : w.tree.WellNamed) (hpath : path ≠ "")
    (hend : path.toList.getLast? ≠ some '/') (henter : w.tree.enter w.dir path = .ok place)
    (hm : m ∈ w.fileMatches (path ++ "/")) : (path ++ "/").toList <+: m.toList := by
  have horHere : Path.orHere path = path := if_neg hpath
  rw [fileMatches_eq ht (Path.parts_slash hpath hend) (horHere.symm ▸ henter),
    (Text.sorted_perm _).mem_iff] at hm
  obtain ⟨name, hname, rfl⟩ := List.mem_map.mp hm
  have hisname := ht.isName_of_mem (List.mem_of_mem_filter hname)
  have htoName : Path.toName path name = path ++ "/" ++ name := by
    rw [Path.toName, if_neg hpath, Path.join_eq hpath hend hisname.slashless]
  rw [matchOf, htoName, String.append_assoc]
  exact ⟨_, String.toList_append.symm⟩

/-- The matches of a text are those of the directory that its directory part stands for, with names
that begin with what follows, and there are none if it is no directory. If a match has a slash
behind it, its matches are those of the directory that it shows, all of them, and begin with it. -/
theorem fileMatches_exact (ht : w.tree.WellNamed) (text : String) :
    ∃ dir begun, Path.Parts text dir begun ∧
      (w.isDirectory (Path.orHere dir) = false → w.fileMatches text = []) ∧
      (w.isDirectory (Path.orHere dir) = true → ∃ place,
        w.tree.enter w.dir (Path.orHere dir) = .ok place ∧
          w.Matches place begun (w.fileMatches text)) ∧
      ∀ path, path ++ "/" ∈ w.fileMatches text → ∃ inner,
        w.tree.enter w.dir path = .ok inner ∧ w.Matches inner "" (w.fileMatches (path ++ "/")) ∧
          ∀ m ∈ w.fileMatches (path ++ "/"), (path ++ "/").toList <+: m.toList := by
  obtain ⟨dir, begun, hparts⟩ := Path.exists_parts text
  refine ⟨dir, begun, hparts, fileMatches_of_not_isDirectory ht hparts, fun hdir => ?_,
    fun path hmem => ?_⟩
  · obtain ⟨place, henter⟩ := ht.isDirectory_iff.mp hdir
    exact ⟨place, henter, matches_fileMatches ht hparts henter⟩
  · obtain ⟨hpath, hend, inner, henter⟩ := enter_of_mem_fileMatches ht hparts hmem
    have horHere : Path.orHere path = path := if_neg hpath
    exact ⟨inner, henter,
      matches_fileMatches ht (Path.parts_slash hpath hend) (horHere.symm ▸ henter),
      fun m hm => startsWith_of_mem_fileMatches ht hpath hend henter hm⟩

/-- A directory with a link back out of it, and with a name that has a space in it. -/
def linked : World :=
  ⟨⟨[(["d"], .directory), (["d", "up"], .link ".."), (["d", "a b"], .file .empty false)], 4096⟩,
    [], [], ⟨2024, 1, 1, 0, 0, 0, 0⟩, [], ⟨none, []⟩⟩

theorem fileMatches_exact_linked : linked.tree.WellNamed ∧
    linked.fileMatches "d//u" = ["d/up/"] ∧ linked.Matches ["d"] "u" ["d/up/"] ∧
    linked.fileMatches ("d/up" ++ "/") = ["d/up/d/"] ∧ linked.Matches [] "" ["d/up/d/"] := by
  have htree : linked.tree.WellNamed := by decide
  have henter : linked.tree.enter linked.dir "d" = .ok ["d"] := by decide +kernel
  have henter' : linked.tree.enter linked.dir "d/up" = .ok [] := by decide +kernel
  have hwritten : "d" ++ Path.slashes 2 ++ "u" = "d//u" := by decide
  have htext : Path.Parts ("d" ++ Path.slashes 2 ++ "u") "d" "u" :=
    .under 1 (by decide) (by decide) (by decide)
  rw [hwritten] at htext
  have hfound : linked.fileMatches "d//u" = ["d/up/"] := by
    rw [fileMatches_eq htree htext henter]
    decide +kernel
  have hagain : Path.Parts ("d/up" ++ "/") "d/up" "" := Path.parts_slash (by decide) (by decide)
  have hinside : linked.fileMatches ("d/up" ++ "/") = ["d/up/d/"] := by
    rw [fileMatches_eq htree hagain henter']
    decide +kernel
  obtain ⟨dir, begun, hparts, -, hmatches, hdrill⟩ := fileMatches_exact htree "d//u"
  obtain ⟨rfl, rfl⟩ := Prod.mk.inj (htext.split_eq.symm.trans hparts.split_eq)
  obtain ⟨place, hplace, hall⟩ := hmatches (htree.isDirectory_iff.mpr ⟨_, henter⟩)
  cases henter.symm.trans hplace
  obtain ⟨inner, hinner, hall', -⟩ := hdrill "d/up" (by rw [hfound]; decide)
  cases henter'.symm.trans hinner
  rw [hfound] at hall
  rw [hinside] at hall'
  exact ⟨htree, hfound, hall, hinside, hall'⟩

/-! A path that is too long for the system is no directory to it, whatever its names lead to. -/

theorem isDirectory_of_long (hlong : FileTree.pathLimit ≤ path.utf8ByteSize) :
    w.isDirectory path = false := by
  unfold isDirectory FileTree.isDirectory FileTree.entry? FileTree.reach
  rw [FileTree.find_of_long hlong]
  split <;> rfl

theorem utf8ByteSize_slashes (k : Nat) : (Path.slashes k).utf8ByteSize = k := by
  rw [Path.slashes, String.utf8ByteSize_ofList]
  induction k with
  | zero => rfl
  | succ k ih =>
    rw [List.replicate_succ, String.utf8Len_cons, ih]
    rfl

/-- The working directory, by a path of as many bytes as one likes. -/
def far (k : Nat) : String :=
  "." ++ Path.slashes (k + 1) ++ "."

theorem utf8ByteSize_far (k : Nat) : (far k).utf8ByteSize = k + 3 := by
  rw [far, String.utf8ByteSize_append, String.utf8ByteSize_append, utf8ByteSize_slashes]
  change 1 + (k + 1) + 1 = k + 3
  omega

theorem toList_far (k : Nat) :
    (far k).toList = ('.' :: List.replicate k '/') ++ '/' :: ['.'] := by
  rw [far, String.append_assoc, String.toList_append, Path.toList_slashes_append]
  rfl

theorem enter_far {t : FileTree} {here : Location} {k : Nat} (hk : k + 3 < FileTree.pathLimit) :
    t.enter here (far k) = .ok here := by
  have hsteps : Path.steps (far k) = [".", "."] := by
    rw [Path.steps_append (toList_far k) (by decide), ← List.singleton_append, Path.way_slashes,
      Path.way_of_not_mem (by decide) (by decide)]
    rfl
  have hstart : (far k).startsWith "/" = false := by
    rw [Bool.eq_false_iff, Ne, Path.startsWith_slash_iff, toList_far]
    simp
  have hne : far k ≠ "" := by
    rintro hempty
    simpa [hempty] using utf8ByteSize_far k
  rw [FileTree.enter_ok_iff, FileTree.reach_ok_iff,
    FileTree.find_of_short hne ((utf8ByteSize_far k).symm ▸ hk), hsteps, hstart,
    FileTree.walk_stay (.inr rfl), FileTree.walk_stay (.inr rfl)]
  rfl

def boxed : World :=
  ⟨⟨[(["box"], .directory)], 4096⟩, [], [], ⟨2024, 1, 1, 0, 0, 0, 0⟩, [], ⟨none, []⟩⟩

/-- The one entry that there is is a directory. What it is completed to is not followed by a slash,
and before the space there is no path of the directory to the system. -/
theorem fileMatches_overlong : boxed.tree.WellNamed ∧
    boxed.tree.enter boxed.dir (far 4089) = .ok [] ∧
    boxed.tree.get? ["box"] = some .directory ∧
    boxed.fileMatches (far 4089 ++ "/") = [far 4089 ++ "/" ++ "box" ++ " "] ∧
    boxed.tree.find boxed.dir (far 4089 ++ "/" ++ "box") .itself = .error .nameTooLong := by
  have htree : boxed.tree.WellNamed := by decide
  have henter : boxed.tree.enter boxed.dir (far 4089) = .ok [] := enter_far (by decide)
  have hne : far 4089 ≠ "" := (FileTree.walk_of_enter henter).1
  have hend : (far 4089).toList.getLast? ≠ some '/' := by
    rw [toList_far, List.getLast?_append_of_ne_nil _ (by simp)]
    decide
  have hlong : FileTree.pathLimit ≤ (far 4089 ++ "/" ++ "box").utf8ByteSize := by
    rw [String.utf8ByteSize_append, String.utf8ByteSize_append, utf8ByteSize_far]
    decide
  have htoName : Path.toName (far 4089) "box" = far 4089 ++ "/" ++ "box" := by
    rw [Path.toName, if_neg hne, Path.join_eq hne hend (by decide)]
  have hfound := fileMatches_eq htree (Path.parts_slash hne hend)
    ((if_neg hne : Path.orHere (far 4089) = _).symm ▸ henter)
  have hnames : (boxed.tree.names []).filter (·.startsWith "") = ["box"] := by decide +kernel
  refine ⟨htree, henter, rfl, ?_, FileTree.find_of_long hlong⟩
  rw [hfound, hnames, List.map_singleton, matchOf, htoName, isDirectory_of_long hlong]
  exact List.mergeSort_singleton _

end World

end PipelineShell
