import PipelineShell.Proofs.Accumulation.Calls
import PipelineShell.Proofs.Copying.RoundTrips
import PipelineShell.Proofs.Touching.Stages

/-! What comes to a place in the tree while the stages of a job run, all of them builtins. A stage
whose output is sent there adds what its builtin writes, and any other leaves the place alone. -/

namespace PipelineShell

open Attempt FileTree

/-- What a stage does to the file that its output is sent to: it adds a text, to what the file held
or to nothing. -/
structure Addition where
  append : Bool
  text : String
deriving DecidableEq

namespace Addition

variable {a b : Addition} {as : List Addition}

def onto (old : ByteArray) (a : Addition) : ByteArray :=
  (if a.append then old else .empty) ++ Text.encode a.text

theorem onto_inj (happend : a.append = b.append) {old : ByteArray} :
    a.onto old = b.onto old ↔ a = b := by
  refine ⟨fun h => ?_, congrArg (onto old)⟩
  rw [onto, onto, happend, ByteArray.append_right_inj, Text.encode_inj] at h
  cases a
  cases b
  cases happend
  cases h
  rfl

theorem foldl_onto_of_append (h : ∀ a ∈ as, a.append = true) (old : ByteArray) :
    as.foldl onto old = old ++ Text.encode (String.join (as.map text)) := by
  induction as generalizing old with
  | nil => simp [Text.encode]
  | cons a as ih =>
    rw [List.foldl_cons, ih (fun b hb => h b (List.mem_cons_of_mem a hb)), onto,
      if_pos (h a List.mem_cons_self), List.map_cons, String.join_cons, Text.encode_append,
      ByteArray.append_assoc]

theorem foldl_onto_of_truncates {before after : List Addition} (ha : a.append = false)
    (h : ∀ b ∈ after, b.append = true) (old : ByteArray) :
    (before ++ a :: after).foldl onto old =
      Text.encode (String.join ((a :: after).map text)) := by
  rw [List.foldl_append, List.foldl_cons, foldl_onto_of_append h, onto, ha,
    if_neg Bool.false_ne_true, ByteArray.empty_append, ← Text.encode_append, List.map_cons,
    String.join_cons]

end Addition

/-- Of one tree another one has come, and at the place these texts have been added. -/
structure FileTree.Gained (place : Location) (as : List Addition) (t u : FileTree) : Prop where
  regular : Regular place u
  content : u.content place = as.foldl Addition.onto (t.content place)

theorem FileTree.Gained.trans {place : Location} {as more : List Addition} {t u v : FileTree}
    (h : Gained place as t u) (h' : Gained place more u v) : Gained place (as ++ more) t v where
  regular := h'.regular
  content := by rw [List.foldl_append, ← h.content, h'.content]

/-- A stage that comes to run, with the job that it begins with. -/
structure Stage (τ : Type) where
  command : Command
  last : Bool
  job : Job τ

namespace Stage

open Shell

variable {τ : Type}

/-- The targets of the output and of the errors are opened at these places. -/
def Sends (k : Stage τ) (out err : Option Location) : Prop :=
  ∃ u, k.command.redirection.openIn k.job.shell.world.dir k.job.shell.world.tree = .ok (out, err) u

theorem not_sends_of_stderr {k : Stage τ} {out : Option Location} {place : Location}
    (h : k.command.redirection.stderr.target = none) : ¬k.Sends out (some place) := by
  rintro ⟨u, hopen⟩
  have hsome := Redirection.isSome_of_openIn hopen .stderr
  rw [Redirection.get, h] at hsome
  cases hsome

/-- The output is sent to the place, and its builtin writes this text. -/
def Adds (place : Location) (k : Stage Builtin) (a : Addition) : Prop :=
  (∃ err, k.Sends (some place) err) ∧ a.append = k.command.redirection.stdout.append ∧
    ∃ tag entry, Job.Enters k.command k.last k.job tag entry ∧
      tag.Writes k.command.args entry a.text

/-- A builtin is called in a stage, under the shell's own wiring, and no error is sent to the place,
which holds no link and no device. -/
structure Calls (place : Location) (k : Stage τ) : Prop where
  named : k.command.isEmpty = false
  builtin : k.job.shell.registry.isBuiltin k.command.name = true
  wiring : k.job.shell.wiring = .own
  regular : Regular place k.job.shell.world.tree
  errors : ∀ out, ¬k.Sends out (some place)

variable {place : Location} {j' : Job Builtin} {e : Engine Builtin} {k : Stage Builtin}
  {a b : Addition}

theorem Calls.exists_invoke (hk : k.Calls place)
    (h : Job.runStage e k.command k.last k.job = .ok () j') : ∃ tag s out err u goesOn,
      Job.Enters k.command k.last k.job tag
        { s with wiring := rewire k.command.redirection s.wiring } ∧
      openTargets k.command.redirection (k.job.builtinShell k.last) = .ok () s ∧
      k.command.redirection.openIn k.job.shell.world.dir k.job.shell.world.tree =
        .ok (out, err) s.world.tree ∧
      invoke e tag k.command (k.job.builtinShell k.last) = .ok goesOn u ∧
      j'.shell = { u with wiring := k.job.shell.wiring } := by
  obtain ⟨tag, htag⟩ := Job.resolve_of_isBuiltin hk.builtin
  rw [Job.runStage_of_resolve hk.named hk.builtin htag, Job.runBuiltin_apply] at h
  split at h
  · next goesOn u hinvoke =>
    cases h
    obtain ⟨s, _, htargets, -, -⟩ := redirected_eq_ok.mp hinvoke
    obtain ⟨out, err, hopened⟩ := exists_opened htargets
    exact ⟨tag, s, out, err, u, goesOn, ⟨hk.named, hk.builtin, htag, s, htargets, rfl⟩, htargets,
      hopened.tree, hinvoke, rfl⟩
  · cases h

variable (he : e.handler = Builtin.run) (hk : k.Calls place)
  (h : Job.runStage e k.command k.last k.job = .ok () j')

include he hk h

theorem Calls.get?_of_adds (hadds : k.Adds place a) : ∃ x,
    j'.shell.world.tree.get? place =
      some (.file (a.onto (k.job.shell.world.tree.content place)) x) := by
  obtain ⟨tag, s, out, err, u, goesOn, hentry, htargets, hopen, hinvoke, hshell⟩ :=
    hk.exists_invoke h
  obtain ⟨⟨err', v, hsends⟩, happend, tag', entry', hentry', said, hacts, htext⟩ := hadds
  cases hopen.symm.trans hsends
  cases hentry.resolves.symm.trans hentry'.resolves
  obtain ⟨s', htargets', rfl⟩ := hentry'.opened
  cases htargets.symm.trans htargets'
  rw [← he] at hacts
  obtain ⟨x, hget⟩ := get?_invoke (s := k.job.builtinShell k.last) (Engine.onlyRoams_of_run he)
    (Job.outlet_builtinShell_ne_file hk.wiring) hk.regular htargets hopen
    (fun herr => hk.errors _ ⟨_, herr ▸ hopen⟩) hacts hinvoke
  refine ⟨x, ?_⟩
  rw [hshell, Addition.onto, happend, ← htext]
  exact hget

/-- A stage adds one text at most. -/
theorem Calls.adds_unique (hadds : k.Adds place a) (hadds' : k.Adds place b) : a = b := by
  obtain ⟨x, hget⟩ := hk.get?_of_adds he h hadds
  obtain ⟨x', hget'⟩ := hk.get?_of_adds he h hadds'
  have hboth := hget.symm.trans hget'
  rw [Option.some.injEq, Entry.file.injEq] at hboth
  exact (Addition.onto_inj (hadds.2.1.trans hadds'.2.1.symm)).mp hboth.1

theorem Calls.gained_of_adds (hadds : k.Adds place a) :
    Gained place [a] k.job.shell.world.tree j'.shell.world.tree := by
  obtain ⟨x, hget⟩ := hk.get?_of_adds he h hadds
  refine ⟨fun entry hentry => ?_, by rw [content, hget]; rfl⟩
  cases hget.symm.trans hentry
  exact .inl ⟨_, x, rfl⟩

theorem Calls.gained_of_not_adds (hnone : ∀ a, ¬k.Adds place a) :
    Gained place [] k.job.shell.world.tree j'.shell.world.tree := by
  obtain ⟨tag, s, out, err, u, goesOn, hentry, htargets, hopen, hinvoke, hshell⟩ :=
    hk.exists_invoke h
  have hout : out ≠ some place := by
    rintro rfl
    obtain ⟨text, hwrites⟩ := tag.exists_writes k.command.args
      { s with wiring := rewire k.command.redirection s.wiring }
    exact hnone ⟨_, text⟩ ⟨⟨err, _, hopen⟩, rfl, tag, _, hentry, hwrites⟩
  have hspared : Spared place _ _ := spared_invoke (s := k.job.builtinShell k.last)
    (Engine.onlyRoams_of_run he) (Job.outlet_builtinShell_ne_file hk.wiring) hopen hout
    (fun herr => hk.errors _ ⟨_, herr ▸ hopen⟩) hinvoke
  rw [hshell]
  exact ⟨hspared.regular hk.regular, hspared.content⟩

theorem Calls.reach_of_sends {path : String} {err : Option Location}
    (hpath : k.command.redirection.stdout.target = some path) (hsends : k.Sends (some place) err) :
    ∃ entry, entry.IsFile ∧
      j'.shell.world.tree.reach k.job.shell.world.dir path = .ok (place, entry) := by
  obtain ⟨tag, s, out, err', u, goesOn, -, -, -, hinvoke, hshell⟩ := hk.exists_invoke h
  obtain ⟨v, hopen⟩ := hsends
  have hreach := reach_invoke (Engine.onlyRoams_of_run he)
    (Job.outlet_builtinShell_ne_file hk.wiring) hk.regular hopen hpath hinvoke
  rw [hshell]
  exact hreach

end Stage

/-- These additions are those of some stages, in order. -/
inductive Gathers (place : Location) : List (Stage Builtin) → List Addition → Prop
  | done : Gathers place [] []
  | adds {k : Stage Builtin} {ks : List (Stage Builtin)} {a : Addition} {as : List Addition}
      (h : k.Adds place a) (hrest : Gathers place ks as) : Gathers place (k :: ks) (a :: as)
  | passes {k : Stage Builtin} {ks : List (Stage Builtin)} {as : List Addition}
      (h : ∀ a, ¬k.Adds place a) (hrest : Gathers place ks as) : Gathers place (k :: ks) as

namespace Gathers

variable {place : Location} {ks ks' : List (Stage Builtin)} {as bs : List Addition}

theorem exists_gathers (place : Location) (ks : List (Stage Builtin)) :
    ∃ as, Gathers place ks as := by
  induction ks with
  | nil => exact ⟨[], .done⟩
  | cons k ks ih =>
    obtain ⟨as, has⟩ := ih
    by_cases h : ∃ a, k.Adds place a
    · obtain ⟨a, ha⟩ := h
      exact ⟨a :: as, .adds ha has⟩
    · push Not at h
      exact ⟨as, .passes h has⟩

theorem eq_of_gathers (h : ∀ k ∈ ks, ∀ a b, k.Adds place a → k.Adds place b → a = b)
    (has : Gathers place ks as) (hbs : Gathers place ks bs) : as = bs := by
  induction has generalizing bs with
  | done =>
    cases hbs
    rfl
  | @adds k ks a as ha _ ih =>
    cases hbs with
    | adds hb hrest =>
      rw [h k List.mem_cons_self _ _ ha hb, ih (fun k hk => h k (List.mem_cons_of_mem _ hk)) hrest]
    | passes hnone _ => exact absurd ha (hnone a)
  | @passes k ks as hnone _ ih =>
    cases hbs with
    | adds hb _ => exact absurd hb (hnone _)
    | passes _ hrest => exact ih (fun k hk => h k (List.mem_cons_of_mem _ hk)) hrest

theorem exists_of_append (h : Gathers place (ks ++ ks') as) : ∃ first rest,
    as = first ++ rest ∧ Gathers place ks first ∧ Gathers place ks' rest := by
  induction ks generalizing as with
  | nil => exact ⟨[], as, rfl, .done, h⟩
  | cons k ks ih =>
    cases h with
    | @adds _ _ a _ ha hrest =>
      obtain ⟨first, rest, rfl, hfirst, hlater⟩ := ih hrest
      exact ⟨a :: first, rest, rfl, .adds ha hfirst, hlater⟩
    | passes hnone hrest =>
      obtain ⟨first, rest, rfl, hfirst, hlater⟩ := ih hrest
      exact ⟨first, rest, rfl, .passes hnone hfirst, hlater⟩

end Gathers

namespace Stage

variable {place : Location} {e : Engine Builtin} {k : Stage Builtin} {j' : Job Builtin}
  {as : List Addition}

theorem Calls.gained (he : e.handler = Builtin.run) (hk : k.Calls place)
    (h : Job.runStage e k.command k.last k.job = .ok () j') (hgathers : Gathers place [k] as) :
    Gained place as k.job.shell.world.tree j'.shell.world.tree := by
  cases hgathers with
  | adds hadds hrest =>
    cases hrest
    exact hk.gained_of_adds he h hadds
  | passes hnone hrest =>
    cases hrest
    exact hk.gained_of_not_adds he h hnone

theorem Calls.regular_after (he : e.handler = Builtin.run) (hk : k.Calls place)
    (h : Job.runStage e k.command k.last k.job = .ok () j') :
    Regular place j'.shell.world.tree := by
  obtain ⟨as, has⟩ := Gathers.exists_gathers place [k]
  exact (hk.gained he h has).regular

/-- The stage has run, and since it ended paths have led where they lead in this tree. -/
structure Ran (e : Engine Builtin) (place : Location) (k : Stage Builtin) (u : FileTree) :
    Prop where
  calls : k.Calls place
  since : ∃ j', Job.runStage e k.command k.last k.job = .ok () j' ∧
    Touches (fun _ _ => True) j'.shell.world.tree u

namespace Ran

variable {u v : FileTree} (h : k.Ran e place u)

include h

theorem later (htouches : Touches (fun _ _ => True) u v) : k.Ran e place v := by
  obtain ⟨j', hstage, hsince⟩ := h.since
  exact ⟨h.calls, j', hstage, trans_of (Touches _) hsince htouches⟩

variable (he : e.handler = Builtin.run)

include he

theorem adds_unique {a b : Addition} (ha : k.Adds place a) (hb : k.Adds place b) : a = b := by
  obtain ⟨j', hstage, -⟩ := h.since
  exact h.calls.adds_unique he hstage ha hb

theorem reach {path : String} {err : Option Location}
    (hpath : k.command.redirection.stdout.target = some path) (hsends : k.Sends (some place) err) :
    ∃ entry, entry.IsFile ∧ u.reach k.job.shell.world.dir path = .ok (place, entry) := by
  obtain ⟨j', hstage, hsince⟩ := h.since
  obtain ⟨entry, hentry, hreach⟩ := h.calls.reach_of_sends he hstage hpath hsends
  obtain ⟨entry', hreach', hkind⟩ := hsince.leads _ _ _ _ hreach
  exact ⟨entry', isFile_of_kind hkind.symm hentry, hreach'⟩

end Ran

end Stage

namespace Job

def trail {τ : Type} (e : Engine τ) : List Command → Job τ → List (Stage τ)
  | [], _ => []
  | c :: cs, j => ⟨c, cs.isEmpty, j⟩ ::
    match runStage e c cs.isEmpty j with
    | .ok _ j' => trail e cs j'
    | .error _ _ => []

theorem command_mem_of_mem_trail {τ : Type} {e : Engine τ} {cs : List Command} {j : Job τ}
    {k : Stage τ} (h : k ∈ trail e cs j) : k.command ∈ cs := by
  induction cs generalizing j with
  | nil => cases h
  | cons c cs ih =>
    rcases List.mem_cons.mp h with rfl | h
    · exact List.mem_cons_self
    · split at h
      · exact List.mem_cons_of_mem c (ih h)
      · cases h

/-- The stages that are left are builtins, under the shell's own wiring, and the job has neither a
file open nor a pipe that nobody reads. -/
structure OfBuiltins {τ : Type} (cs : List Command) (j : Job τ) : Prop where
  wiring : j.shell.wiring = .own
  files : j.files = []
  unread : j.unread = []
  named : ∀ c ∈ cs, c.isEmpty = false
  builtin : ∀ c ∈ cs, j.shell.registry.isBuiltin c.name = true

section

variable {e : Engine Builtin} {place : Location} {c : Command} {cs : List Command}
  {j j' : Job Builtin} {as : List Addition}

theorem OfBuiltins.tail (he : e.handler = Builtin.run) (hj : OfBuiltins (c :: cs) j)
    (h : runStage e c cs.isEmpty j = .ok () j') : OfBuiltins cs j' := by
  obtain ⟨tag, htag⟩ := resolve_of_isBuiltin (hj.builtin c List.mem_cons_self)
  have hrests := ((orderly_runStage (Engine.onlyRoams_of_run he) c _).ok h).rests
  rw [runStage_of_resolve (hj.named c List.mem_cons_self) (hj.builtin c List.mem_cons_self) htag]
    at h
  have hfinal := final_of_ok h
  refine ⟨hrests.wiring.trans hj.wiring, ?_, ?_,
    fun b hb => hj.named b (List.mem_cons_of_mem c hb), fun b hb => ?_⟩
  · rw [← hfinal, files_runBuiltin, hj.files]
  · rw [← hfinal, unread_runBuiltin, hj.unread]
  · rw [hrests.registry]
    exact hj.builtin b (List.mem_cons_of_mem c hb)

theorem OfBuiltins.calls_head (hj : OfBuiltins (c :: cs) j)
    (hregular : Regular place j.shell.world.tree)
    (herr : ∀ k ∈ trail e (c :: cs) j, ∀ out, ¬k.Sends out (some place)) :
    (⟨c, cs.isEmpty, j⟩ : Stage Builtin).Calls place where
  named := hj.named c List.mem_cons_self
  builtin := hj.builtin c List.mem_cons_self
  wiring := hj.wiring
  regular := hregular
  errors := herr _ List.mem_cons_self

variable (he : e.handler = Builtin.run) (hj : OfBuiltins cs j)
  (hregular : Regular place j.shell.world.tree)
  (herr : ∀ k ∈ trail e cs j, ∀ out, ¬k.Sends out (some place))
  (h : runStages e cs j = .ok () j')

include he hj h

theorem OfBuiltins.after : OfBuiltins [] j' := by
  induction cs generalizing j with
  | nil =>
    cases h
    exact hj
  | cons c cs ih =>
    obtain ⟨_, j₁, hstage, hrest⟩ := bind_eq_ok.mp h
    exact ih (hj.tail he hstage) hrest

theorem touches_runStages : Touches (fun _ _ => True) j.shell.world.tree j'.shell.world.tree := by
  have htouches : TouchesOnly (fun _ _ => True) j ((runStages e cs).final j) :=
    touchesOnly_runStages (Engine.onlyRoams_of_run he) (fun c hc => .inr (hj.builtin c hc))
      fun _ _ _ => trivial
  rw [final_of_ok h] at htouches
  exact (htouches.touches hj.wiring fun f hf => by rw [hj.files] at hf; cases hf).2

include hregular herr

/-- The stages of a job add to the file one after the other. -/
theorem gained_runStages (hgathers : Gathers place (trail e cs j) as) :
    Gained place as j.shell.world.tree j'.shell.world.tree := by
  induction cs generalizing j as with
  | nil =>
    cases h
    cases hgathers
    exact ⟨hregular, rfl⟩
  | cons c cs ih =>
    obtain ⟨_, j₁, hstage, hrest⟩ := bind_eq_ok.mp h
    have hcalls := hj.calls_head hregular herr
    rw [trail, hstage] at herr hgathers
    have hsplit : Gathers place ([⟨c, cs.isEmpty, j⟩] ++ trail e cs j₁) as := hgathers
    obtain ⟨first, more, rfl, hfirst, hmore⟩ := hsplit.exists_of_append
    have hgained := hcalls.gained he hstage hfirst
    exact hgained.trans (ih (hj.tail he hstage) hgained.regular
      (fun k hk => herr k (List.mem_cons_of_mem _ hk)) hrest hmore)

/-- Each stage of a job has run, and from its end to the end of the job paths lead where they
led. -/
theorem ran_of_mem_trail {k : Stage Builtin} (hk : k ∈ trail e cs j) :
    k.Ran e place j'.shell.world.tree := by
  induction cs generalizing j with
  | nil => cases hk
  | cons c cs ih =>
    obtain ⟨_, j₁, hstage, hrest⟩ := bind_eq_ok.mp h
    have hcalls := hj.calls_head hregular herr
    have hj₁ := hj.tail he hstage
    rw [trail, hstage] at herr hk
    rcases List.mem_cons.mp hk with rfl | hk
    · exact ⟨hcalls, j₁, hstage, touches_runStages he hj₁ hrest⟩
    · exact ih hj₁ (hcalls.regular_after he hstage)
        (fun k hk => herr k (List.mem_cons_of_mem _ hk)) hrest hk

end

end Job

end PipelineShell
