import PipelineShell.Proofs.Completion.Suggestions
import PipelineShell.Proofs.Lookup.Dispatch
import PipelineShell.Proofs.Lookup.Listing
import PipelineShell.Proofs.Lookup.Registrations

/-! Whether a command that was completed can be run. The words that are completed are folded, and
so are the names of builtins; a file is found by the name that it has. -/

namespace PipelineShell

/-! The names of a table of builtins are folded. -/

namespace Registry

variable {α : Type}

theorem fold_of_mem_registerAll {r : Registry α} (hr : ∀ name ∈ r.names, Text.fold name = name)
    (l : List (String × α)) : ∀ name ∈ (r.registerAll l).names, Text.fold name = name := by
  induction l using List.reverseRecOn with
  | nil => exact hr
  | append_singleton l e ih =>
    rw [registerAll_concat]
    split
    · exact ih
    · intro name hname
      obtain ⟨d, hd, rfl⟩ := List.mem_map.mp hname
      rcases mem_put hd with rfl | hd
      · exact Text.fold_fold e.1
      · exact ih d.1 (List.mem_map_of_mem hd)

theorem isBuiltin_of_mem_names {r : Registry α} {name : String} (hne : name ≠ "")
    (hfold : Text.fold name = name) (h : name ∈ r.names) : r.isBuiltin name = true := by
  rw [isBuiltin_eq hne, get?, hfold, Option.isSome_iff_ne_none, Ne, List.lookup_eq_none_iff]
  obtain ⟨e, he, rfl⟩ := List.mem_map.mp h
  exact fun hno => by simpa using hno e he

end Registry

/-! The words of a trie are the foldings of what was inserted. -/

namespace Trie

theorem exists_holds_insertAll {t : Trie} {words : Finset String} (h : t.Holds words)
    (l : List String) : ∃ words', (t.insertAll l).Holds words' ∧
      ∀ w ∈ words', w ∈ words ∨ ∃ v ∈ l, Text.blank v = false ∧ Text.fold v = w := by
  induction l generalizing t words with
  | nil => exact ⟨words, h, fun w hw => .inl hw⟩
  | cons v l ih =>
    obtain ⟨words', h', hmem⟩ := ih (h.insert v)
    refine ⟨words', h', fun w hw => ?_⟩
    rcases hmem w hw with hw | ⟨u, hu, hblank, hfold⟩
    · cases hb : Text.blank v with
      | true => exact .inl (by simpa [hb] using hw)
      | false =>
        rcases Finset.mem_insert.mp (by simpa [hb] using hw) with rfl | hw
        · exact .inr ⟨v, List.mem_cons_self, hb, rfl⟩
        · exact .inl hw
    · exact .inr ⟨u, List.mem_cons_of_mem v hu, hblank, hfold⟩

theorem mem_of_suggest {t : Trie} {words : Finset String} (h : t.Holds words) {limit : Int}
    {text w : String} (hw : Completion.suggest ⟨t, limit⟩ text = ⟨[w], true⟩) : w ∈ words := by
  rw [Completion.suggest_eq] at hw
  have hfound : t.find text limit = [w] := by
    generalize t.find text limit = found at hw
    match found, hw with
    | [_], hw => cases hw; rfl
    | _ :: _ :: _, hw =>
      unfold Completion.suggestFrom at hw
      dsimp only at hw
      split at hw <;> cases hw
  by_cases hguard : (Text.blank text || decide (limit ≤ 0)) = true
  · rw [find, if_pos hguard] at hfound
    cases hfound
  · have hpos : Text.blank text = false ∧ 0 < limit := by simpa using hguard
    rw [h.find_eq hpos.1 hpos.2] at hfound
    have hmem : w ∈ (beginning words (Text.fold text)).take limit.toNat := by simp [hfound]
    exact (mem_beginning.mp (List.mem_of_mem_take hmem)).1

end Trie

/-- No file name holds a slash. -/
def FileTree.Slashless (t : FileTree) : Prop :=
  ∀ p ∈ t.entries, ∀ name ∈ p.1, '/' ∉ name.toList

instance (t : FileTree) : Decidable t.Slashless :=
  inferInstanceAs (Decidable (∀ p ∈ t.entries, ∀ name ∈ p.1, '/' ∉ name.toList))

theorem FileTree.Slashless.not_mem {t : FileTree} (h : t.Slashless) {place : Location}
    {name : String} (hname : name ∈ t.names place) : '/' ∉ name.toList := by
  rw [names_eq, List.mem_filterMap] at hname
  obtain ⟨l, hl, hin⟩ := hname
  obtain ⟨p, hp, rfl⟩ := List.mem_map.mp hl
  exact h p hp name (by simp [mem_nameIn.mp hin])

theorem SearchPath.isSome_find_of_mem {w : World} (hw : w.tree.Slashless) {path name : String}
    (h : name ∈ executables w path) : (find w path name).isSome = true := by
  have hlisted : Lists w (directories path) [] name := by
    simpa [executables, mem_executablesIn] using h
  have hslash : '/' ∉ name.toList := by
    obtain ⟨before, dir, after, place, -, -, -, front, back, hnames, -⟩ := hlisted
    exact hw.not_mem (hnames ▸ List.mem_append_right front List.mem_cons_self)
  exact (isSome_find_iff hslash).mpr hlisted.isExecutable

namespace Session

variable {τ : Type} {s s' : Session τ} {text w : String} {c : Completion}

theorem readSettings_eq_ok {settings : Settings} (h : readSettings s = .ok settings s') :
    s'.shell = s.shell := by
  unfold readSettings at h
  rw [Attempt.bind_of_ok (Attempt.get_apply s)] at h
  cases hs : s.settings with
  | some settings =>
    rw [hs] at h
    cases h
    rfl
  | none =>
    rw [hs] at h
    dsimp only at h
    cases hload : Settings.load s.engine.host.reader s.shell.world with
    | ok settings =>
      rw [hload] at h
      cases h
      rfl
    | error fault =>
      rw [hload] at h
      cases h

theorem completion_eq_ok (h : completion s = .ok c s') : s'.shell = s.shell ∧
    c.words = (Trie.empty.insertAll s.shell.registry.names).insertAll s.shell.executables := by
  obtain ⟨settings, t, hsettings, h⟩ := Attempt.bind_eq_ok.mp h
  have hshell := readSettings_eq_ok hsettings
  rw [Attempt.bind_of_ok (Attempt.get_apply t)] at h
  cases h
  exact ⟨hshell, by rw [hshell]⟩

/-- A command that was completed as a whole word is a builtin or is found, or else it is the folding
of another name, one of a file that is found. Where no file has such a name, a stage of the
completed name is never unknown. -/
theorem completed_command_known {l : List (String × τ)}
    (hregistry : s.shell.registry = Registry.empty.registerAll l)
    (htree : s.shell.world.tree.Slashless) (h : suggest text s = .ok ⟨[w], true⟩ s') :
    s'.shell = s.shell ∧ offered text true s = .ok [w ++ " "] s' ∧
      (s.shell.registry.isBuiltin w = true ∨ (s.shell.locate w).isSome = true ∨
        ∃ v ∈ s.shell.executables, v ≠ w ∧ Text.fold v = w ∧ (s.shell.locate v).isSome = true) ∧
      ((∀ v ∈ s.shell.executables, Text.fold v = w → v = w) → ¬s.shell.Takes w .unknown) := by
  obtain ⟨c, t, hc, hsuggest⟩ := Attempt.bind_eq_ok.mp h
  obtain ⟨hs, rfl⟩ := EStateM.Result.ok.inj hsuggest
  obtain ⟨hshell, hwords⟩ := completion_eq_ok hc
  have hoffered : offered text true s = .ok [w ++ " "] t := by
    rw [offered, Attempt.bind_of_ok hc, if_pos rfl, hs]
    rfl
  obtain ⟨names, hnames, hname⟩ :=
    Trie.exists_holds_insertAll Trie.holds_empty s.shell.registry.names
  obtain ⟨all, hall, hany⟩ := Trie.exists_holds_insertAll hnames s.shell.executables
  have hw : w ∈ all := Trie.mem_of_suggest (hwords ▸ hall) hs
  have hfolded : ∀ name ∈ s.shell.registry.names, Text.fold name = name := by
    rw [hregistry]
    exact Registry.fold_of_mem_registerAll (by simp [Registry.names, Registry.empty]) l
  have hfound : ∀ v ∈ s.shell.executables, (s.shell.locate v).isSome = true := fun v hv =>
    SearchPath.isSome_find_of_mem htree hv
  have hne : ∀ v, Text.blank v = false → Text.fold v = w → w ≠ "" := by
    rintro v hblank rfl hempty
    rw [Text.fold_eq_empty_iff.mp hempty] at hblank
    cases hblank
  have hsource : w ≠ "" ∧ (s.shell.registry.isBuiltin w = true ∨
      ∃ v ∈ s.shell.executables, Text.fold v = w) := by
    rcases hany w hw with hw | ⟨v, hv, hblank, hfold⟩
    · obtain ⟨v, hv, hblank, hfold⟩ := (hname w hw).resolve_left (by simp)
      have hv' : v = w := (hfolded v hv).symm.trans hfold
      exact ⟨hne v hblank hfold, .inl (Registry.isBuiltin_of_mem_names (hne v hblank hfold)
        (hv' ▸ hfolded v hv) (hv' ▸ hv))⟩
    · exact ⟨hne v hblank hfold, .inr ⟨v, hv, hfold⟩⟩
  refine ⟨hshell, hoffered, ?_, fun hself htakes => ?_⟩
  · rcases hsource.2 with hb | ⟨v, hv, hfold⟩
    · exact .inl hb
    · by_cases hvw : v = w
      · exact .inr (.inl (hvw ▸ hfound v hv))
      · exact .inr (.inr ⟨v, hv, hvw, hfold, hfound v hv⟩)
  · have hunknown : Builtin.meaning s.shell w = .nothing := by
      rw [Shell.meaning_eq hsource.1, ← (Shell.takes_iff hsource.1).mp htakes]
      rfl
    unfold Builtin.meaning at hunknown
    rcases hsource.2 with hb | ⟨v, hv, hfold⟩
    · rw [if_pos hb] at hunknown
      cases hunknown
    · obtain ⟨path, hpath⟩ := Option.isSome_iff_exists.mp (hself v hv hfold ▸ hfound v hv)
      rw [hpath] at hunknown
      split at hunknown <;> cases hunknown

end Session

namespace Lookup

def trialSession (name : String) : Session Builtin :=
  ⟨.start ⟨⟨[(["bin"], .directory), (["bin", name], .file .empty true)], 4096⟩, [], [],
      ⟨2024, 1, 1, 0, 0, 0, 0⟩, [], ⟨none, []⟩⟩
    (Registry.empty.registerAll [("Echo", .echo)]) (some "/bin") (.empty 0) "" (.text ""),
    ⟨Builtin.run, fun _ => .error .noEntry, 1, .ample⟩, some .default⟩

theorem suggest_trial {name : String} (h : (trialSession name).shell.executables = [name])
    (text : String) : Session.suggest text (trialSession name) =
      .ok (Completion.suggest ⟨(Trie.empty.insertAll ["echo"]).insertAll [name], 100⟩ text)
        (trialSession name) := by
  have hnames : (trialSession name).shell.registry.names = ["echo"] := by
    change (Registry.empty.registerAll [("Echo", Builtin.echo)]).names = ["echo"]
    decide
  have hc : Session.completion (trialSession name) =
      .ok ⟨(Trie.empty.insertAll ["echo"]).insertAll [name], 100⟩ (trialSession name) := by
    rw [← hnames, ← h]
    rfl
  rw [Session.suggest, Attempt.bind_of_ok hc]
  rfl

theorem completed_command_known_trial :
    Session.suggest "TO" (trialSession "tool") = .ok ⟨["tool"], true⟩ (trialSession "tool") ∧
      ¬(trialSession "tool").shell.Takes "tool" .unknown := by
  have hlisted : (trialSession "tool").shell.executables = ["tool"] := by decide +kernel
  have h : Session.suggest "TO" (trialSession "tool") =
      .ok ⟨["tool"], true⟩ (trialSession "tool") := by
    rw [suggest_trial hlisted]
    exact congrArg (EStateM.Result.ok · _) (by decide +kernel)
  have htree : (trialSession "tool").shell.world.tree.Slashless := by decide
  refine ⟨h, (Session.completed_command_known rfl htree h).2.2.2 fun v hv _ => ?_⟩
  rw [hlisted] at hv
  exact List.mem_singleton.mp hv

/-- The name of a program that is not its own folding is completed to another one. -/
theorem completed_command_unknown :
    Session.suggest "To" (trialSession "Tool") = .ok ⟨["tool"], true⟩ (trialSession "Tool") ∧
      (trialSession "Tool").shell.registry.isBuiltin "tool" = false ∧
      (trialSession "Tool").shell.locate "tool" = none ∧
      (trialSession "Tool").shell.Takes "tool" .unknown := by
  have hlisted : (trialSession "Tool").shell.executables = ["Tool"] := by decide +kernel
  have hbuiltin : (trialSession "Tool").shell.registry.isBuiltin "tool" = false := by decide
  have hlocate : (trialSession "Tool").shell.locate "tool" = none := by decide +kernel
  refine ⟨?_, hbuiltin, hlocate, ?_⟩
  · rw [suggest_trial hlisted]
    exact congrArg (EStateM.Result.ok · _) (by decide +kernel)
  · rw [Shell.takes_iff (by decide), Shell.course, hlocate]
    have hget : (trialSession "Tool").shell.registry.get? "tool" = none := by decide
    rw [hget]

end Lookup

end PipelineShell
