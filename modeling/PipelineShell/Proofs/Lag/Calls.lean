import PipelineShell.Proofs.Lag.Writers
import PipelineShell.Proofs.Replay.Calls
import PipelineShell.Proofs.Survival.Calls

/-! A builtin that is called in two shells, the tree of one of which is behind. It does not notice
unless it opens or copies the file that is still to get something. -/

namespace PipelineShell

open Attempt FileTree

theorem Session.onlyRoams_of_handler {e : Engine CommandTag} (he : e.handler = runCommand) :
    e.OnlyRoams :=
  fun tag args => he ▸ onlyRoams_runCommand e.programs e.chunkSize e.host tag args

theorem SearchPath.find_congr {w w' : World}
    (h : ∀ path, w'.isExecutable path = w.isExecutable path) (path name : String) :
    SearchPath.find w' path name = SearchPath.find w path name := by
  have hsame : w'.isExecutable = w.isExecutable := funext h
  unfold SearchPath.find
  rw [hsame]

/-- The path leads to no place where something is still to come. -/
def World.Reads (g : Option Lag) (w : World) (path : String) : Prop :=
  ∀ place e, w.tree.reach w.dir path = .ok (place, e) → Settled g place

theorem World.Reads.revise {g : Option Lag} {w : World} {path : String} (h : w.Reads g path)
    (place : Location) (change : ByteArray → ByteArray) :
    ({ w with tree := w.tree.revise place change } : World).Reads g path := by
  intro place' e hreach
  obtain ⟨e', hreach', -⟩ :=
    (sameKinds_revise w.tree place change).symm.reach_of_ok hreach
  exact h place' e' hreach'

/-- What a builtin copies is not still to get anything. -/
def Copies (g : Option Lag) (tag : CommandTag) (args : List String) (w : World) : Prop :=
  tag = .inl .cat → ∀ path ∈ args, w.Reads g path

namespace Shell

variable {τ α : Type} {g : Option Lag} {K : World → Prop} {s t : Shell τ}

/-- The two shells are the same, but that the tree of the first is behind that of the second, and
not at the places of open files. -/
inductive Lagging (g : Option Lag) (K : World → Prop) : Shell τ → Shell τ → Prop
  | intro {s : Shell τ} (t : FileTree) (hlags : Lags g s.world.tree t) (hkeeps : K s.world)
      (hfiles : ∀ stream w, s.file stream = some w → Settled g w.place) :
      Lagging g K s (s.setTree t)

theorem Lagging.mono {K' : World → Prop} (h : Lagging g K s t) (hk : K' s.world) :
    Lagging g K' s t := by
  obtain ⟨t, hl, -, hf⟩ := h
  exact ⟨t, hl, hk, hf⟩

theorem Lagging.same (h : Lagging g K s t) : t = s.setTree t.world.tree := by
  obtain ⟨t, -, -, -⟩ := h
  rfl

theorem Lagging.lags (h : Lagging g K s t) : Lags g s.world.tree t.world.tree := by
  obtain ⟨t, hl, -, -⟩ := h
  exact hl

theorem Lagging.setTree {u u' : FileTree} (h : Lagging g (fun _ => True) s t) (hu : Lags g u u') :
    Lagging g (fun _ => True) (s.setTree u) (t.setTree u') := by
  obtain ⟨t, -, -, hfiles⟩ := h
  exact .intro (s := s.setTree u) u' hu trivial fun stream w hw =>
    hfiles stream w (by cases stream <;> exact hw)

theorem Lagging.setTree_none {u u' : FileTree} (h : Lagging g (fun _ => True) s t)
    (hu : Lags none u u') : Lagging none (fun _ => True) (s.setTree u) (t.setTree u') := by
  obtain ⟨t, -, -, -⟩ := h
  exact .intro (s := s.setTree u) u' hu trivial fun _ w _ => settled_none w.place

theorem lagging_setFile (h : Lagging g K s t) (stream : Stream) {f : Option TextWriter}
    (hf : ∀ w, f = some w → Settled g w.place) :
    Lagging g K (s.setFile stream f) (t.setFile stream f) := by
  obtain ⟨t, hl, hk, hfiles⟩ := h
  have hsame : (s.setTree t).setFile stream f = (s.setFile stream f).setTree t := by
    cases stream <;> rfl
  have hworld := world_setFile s stream f
  rw [hsame]
  refine ⟨t, by rwa [hworld], by rwa [hworld], fun other w hw => ?_⟩
  by_cases ho : other = stream
  · subst ho
    rw [file_setFile_self] at hw
    exact hf w hw
  · rw [file_setFile_of_ne ho] at hw
    exact hfiles other w hw

theorem Lagging.map (h : Lagging g K s t) (f : Shell τ → Shell τ)
    (hf : ∀ u, f (s.setTree u) = (f s).setTree u) (htree : (f s).world.tree = s.world.tree)
    (hkeeps : K s.world → K (f s).world) (hfile : ∀ stream, (f s).file stream = s.file stream) :
    Lagging g K (f s) (f t) := by
  obtain ⟨t, hl, hk, hfiles⟩ := h
  rw [hf]
  refine ⟨t, by rwa [htree], hkeeps hk, fun stream w hw => ?_⟩
  rw [hfile] at hw
  exact hfiles stream w hw

theorem lagging_modify {f : Shell τ → Shell τ} (hf : ∀ s u, f (setTree s u) = setTree (f s) u)
    (htree : ∀ s, (f s).world.tree = s.world.tree) (hkeeps : ∀ s, K s.world → K (f s).world)
    (hfile : ∀ s stream, (f s).file stream = s.file stream) :
    Respects (Lagging g K) (modify f : Shell.Step τ PUnit) :=
  respects_modify fun s _ h => h.map f (hf s) (htree s) (hkeeps s) (hfile s)

section

variable (hK : ∀ w place change, K w → K { w with tree := w.tree.revise place change })

include hK

theorem lagging_onFile (stream : Stream) {step : TextWriter.Writing Unit}
    (hstep : ∀ K' : FileTree → Prop, (∀ t place change, K' t → K' (t.revise place change)) →
      Respects (Trails g K' TextWriter.place) step) :
    Respects (Lagging g K) (onFile stream step : Shell.Step τ Unit) := by
  rintro s _ ⟨t, hl, hk, hfiles⟩
  have hfile : (s.setTree t).file stream = s.file stream := by cases stream <;> rfl
  cases hw : s.file stream with
  | none =>
    rw [onFile_of_none hw, onFile_of_none (hfile.trans hw)]
    exact .ok ⟨t, hl, hk, hfiles⟩
  | some w =>
    have hend : ∀ p q : TextWriter × FileTree,
        Trails g (fun u => K { s.world with tree := u }) TextWriter.place p q →
        Lagging g K ((s.setTree p.2).setFile stream (some p.1))
          (((s.setTree t).setTree q.2).setFile stream (some q.1)) := by
      rintro ⟨_, u⟩ ⟨v, u'⟩ ⟨rfl, hs, hl, hk⟩
      have hlagging : Lagging g K (s.setTree u) ((s.setTree t).setTree u') :=
        .intro (s := s.setTree u) u' hl hk fun other w hw => hfiles other w (by
          cases other <;> exact hw)
      refine lagging_setFile hlagging stream ?_
      rintro _ ⟨⟩
      exact hs
    have hagree := hstep _ (fun u place change => hK { s.world with tree := u } place change)
      (w, s.world.tree) (w, t) ⟨rfl, hfiles stream w hw, hl, hk⟩
    have htree : (s.setTree t).world.tree = t := rfl
    rw [onFile_of_some hw, onFile_of_some (hfile.trans hw), htree]
    generalize step (w, s.world.tree) = x at hagree ⊢
    generalize step (w, t) = y at hagree ⊢
    cases hagree with
    | ok h => exact .ok (hend _ _ h)
    | error h => exact .error (hend _ _ h)

theorem lagging_writeTo (o : Outlet) (text : String) :
    Respects (Lagging g K) (writeTo o text : Shell.Step τ Unit) := by
  cases o with
  | file stream => exact lagging_onFile hK stream fun K' hK' => TextWriter.trails_write hK' text
  | full atOnce =>
    rintro s _ ⟨t, hl, hk, hfiles⟩
    have hwaiting : (s.setTree t).waiting = s.waiting := rfl
    simp only [writeTo_full_apply, hwaiting]
    cases atOnce && !text.isEmpty with
    | true => exact .error ⟨t, hl, hk, hfiles⟩
    | false =>
      exact .ok ⟨t, hl, hk, fun stream w hw => hfiles stream w (by cases stream <;> exact hw)⟩
  | _ =>
    refine lagging_modify (fun _ _ => rfl) (fun _ => rfl) (fun _ => id) fun s stream => ?_
    cases stream <;> rfl

theorem lagging_flush (o : Outlet) :
    Respects (Lagging g K) (flush o : Shell.Step τ Unit) := by
  cases o with
  | file stream => exact lagging_onFile hK stream fun K' hK' => TextWriter.trails_flush hK'
  | full atOnce =>
    rintro s _ ⟨t, hl, hk, hfiles⟩
    have hwaiting : (s.setTree t).waiting = s.waiting := rfl
    simp only [flush_full_apply, hwaiting]
    cases s.waiting.isEmpty with
    | true => exact .ok ⟨t, hl, hk, hfiles⟩
    | false => exact .error ⟨t, hl, hk, hfiles⟩
  | _ => exact respects_pure _

theorem lagging_closeDestination (stream : Stream) (d : Destination) :
    Respects (Lagging g K) (closeDestination stream d : Shell.Step τ Unit) := by
  unfold closeDestination
  split
  · refine (lagging_onFile hK stream fun K' hK' => TextWriter.trails_close hK').ensure ?_
    exact respects_modify fun s t h => lagging_setFile h stream nofun
  · exact respects_pure _

theorem hears_lagging : Hears (@Lagging τ g K) where
  writes stream text := by
    rintro s _ ⟨t, hl, hk, hfiles⟩
    exact lagging_writeTo hK (s.wiring.outlet stream) text s _ ⟨t, hl, hk, hfiles⟩
  reads := by
    rintro s _ ⟨t, hl, hk, hfiles⟩
    have hstdin : (s.setTree t).wiring.stdin = s.wiring.stdin := rfl
    simp only [readAll, Attempt.bind_apply, Attempt.get_apply, hstdin]
    cases s.wiring.stdin <;>
      exact .ok ⟨t, hl, hk, fun stream w hw => hfiles stream w (by cases stream <;> exact hw)⟩

end

theorem lagging_bound (change : Wiring → Wiring) {step : Shell.Step τ α}
    (hstep : Respects (Lagging g K) step) : Respects (Lagging g K) (bound change step) := by
  rw [bound_eq_within]
  refine hstep.within ?_ ?_
  · rintro s _ ⟨t, hl, hk, hfiles⟩
    exact ⟨t, hl, hk, fun stream w hw => hfiles stream w (by cases stream <;> exact hw)⟩
  · rintro s _ u _ ⟨t, hl, hk, hfiles⟩ ⟨t', hl', hk', hfiles'⟩
    exact ⟨t', hl', hk', fun stream w hw => hfiles' stream w (by cases stream <;> exact hw)⟩

/-- Two shells that are the same but for the bytes of a file are alike to every builtin that does
not copy the file. -/
theorem companions_lagging : Companions (@Lagging τ g fun _ => True) where
  toHears := hears_lagging fun _ _ _ _ => trivial
  environment := by rintro s _ ⟨t, -, -, -⟩; rfl
  moment := by rintro s _ ⟨t, -, -, -⟩; rfl
  directory := by rintro s _ ⟨t, -, -, -⟩; rfl
  accounts := by rintro s _ ⟨t, -, -, -⟩; rfl
  registry := by rintro s _ ⟨t, -, -, -⟩; rfl
  entries := by rintro s _ ⟨t, -, -, -⟩ count; rfl
  located := by
    rintro s _ ⟨t, hl, -, -⟩ name
    have hexecutable : ∀ path, (s.setTree t).world.isExecutable path =
        s.world.isExecutable path := fun path => hl.sameKinds.isExecutable s.world.dir path
    have hsearch : (s.setTree t).searchPath = s.searchPath := rfl
    unfold locate
    rw [hsearch, SearchPath.find_congr hexecutable]
  entered := by
    rintro s _ ⟨t, hl, -, -⟩ path
    have hdir : (s.setTree t).world.tree.enter s.world.dir path =
        s.world.tree.enter s.world.dir path := hl.sameKinds.enter s.world.dir path
    unfold World.enter
    rw [show (s.setTree t).world.dir = s.world.dir from rfl, hdir]
    split
    · cases s.world.tree.enter s.world.dir path <;> rfl
    · rfl
  moves dir := by
    refine lagging_modify (fun _ _ => rfl) (fun _ => rfl) (fun _ => id) fun s stream => ?_
    cases stream <;> rfl
  sleeps seconds := by
    refine lagging_modify (fun _ _ => rfl) (fun _ => rfl) (fun _ => id) fun s stream => ?_
    cases stream <;> rfl

end Shell

open Shell

theorem copies_revise {g : Option Lag} {tag : CommandTag} {args : List String} (w : World)
    (place : Location) (change : ByteArray → ByteArray) (h : Copies g tag args w) :
    Copies g tag args { w with tree := w.tree.revise place change } :=
  fun htag path hpath => (h htag path hpath).revise place change

theorem lagging_runCommand {g : Option Lag} (tag : CommandTag) (args : List String) :
    Respects (Lagging g (Copies g tag args)) (Session.runCommand tag args) := by
  have hears : Hears (Lagging (τ := CommandTag) g (Copies g tag args)) :=
    hears_lagging copies_revise
  by_cases htag : tag = .inl .cat
  · subst htag
    refine hears.runCat fun path hpath => ?_
    rintro s _ ⟨t, hl, hk, -⟩
    have hread : (s.setTree t).world.tree.read s.world.dir path =
        s.world.tree.read s.world.dir path := hl.read (hk rfl path hpath)
    unfold World.read
    rw [show (s.setTree t).world.dir = s.world.dir from rfl, hread]
  · have hany : Copies g tag args = fun _ => True :=
      funext fun w => eq_true fun h => absurd h htag
    cases tag with
    | inl b =>
      rw [hany]
      exact companions_lagging.run b fun hb => absurd (congrArg Sum.inl hb) htag
    | inr p => exact hears.probe p args

namespace Shell

variable {g : Option Lag} {s t : Shell CommandTag} {r : Redirection}

theorem lagging_openDestination (stream : Stream) {d : Destination}
    (h : Lagging g (fun _ => True) s t) (hplace : ∀ place u,
      d.openIn s.world.dir s.world.tree = .ok (some place) u → Settled g place) :
    Agree (Lagging g fun _ => True) (Lagging g fun _ => True) (openDestination stream d s)
      (openDestination stream d t) := by
  have hopen := agree_openIn h.lags hplace
  have hdir : t.world.dir = s.world.dir := by rw [h.same]; rfl
  rw [openDestination_apply, openDestination_apply, hdir]
  generalize d.openIn s.world.dir s.world.tree = x at hopen hplace ⊢
  generalize d.openIn s.world.dir t.world.tree = y at hopen ⊢
  cases hopen with
  | @ok place u u' hl =>
    cases place with
    | none => exact .ok (h.setTree hl)
    | some place =>
      refine .ok (lagging_setFile (h.setTree hl) stream ?_)
      rintro _ ⟨⟩
      exact hplace place u rfl
  | error hl => exact .error (h.setTree hl)

/-- Nothing is still to come to what a call opens and copies. -/
structure Untouched (g : Option Lag) (tag : CommandTag) (c : Command) (s : Shell CommandTag) :
    Prop where
  first : ∀ place u, c.redirection.stdout.openIn s.world.dir s.world.tree = .ok (some place) u →
    Settled g place
  second : ∀ opened u place u', c.redirection.stdout.openIn s.world.dir s.world.tree =
      .ok opened u → c.redirection.stderr.openIn s.world.dir u = .ok (some place) u' →
        Settled g place
  copies : ∀ s', openTargets c.redirection s = .ok () s' → Copies g tag c.args s'.world

theorem lagging_invoke {e : Engine CommandTag} (he : e.handler = Session.runCommand)
    {tag : CommandTag} {c : Command} (h : Lagging g (fun _ => True) s t)
    (hcall : Untouched g tag c s) :
    Agree (Lagging g fun _ => True) (Lagging g fun _ => True) (invoke e tag c s)
      (invoke e tag c t) := by
  have hK : ∀ w place change, Copies g tag c.args w →
      Copies g tag c.args { w with tree := w.tree.revise place change } := copies_revise
  have hclose : ∀ stream d, Respects (Lagging g fun _ => True)
      (closeDestination stream d : Shell.Step CommandTag Unit) :=
    fun stream d => lagging_closeDestination (fun _ _ _ _ => trivial) stream d
  have hcalled : Respects (Lagging g (Copies g tag c.args)) (called e tag c) := by
    unfold called
    rw [he]
    refine ((lagging_runCommand tag c.args).handle fun f y hy => ?_).ensure ?_
    · obtain ⟨-, rfl⟩ := reportAs_eq_some.mp hy
      exact ((hears_lagging hK).line _ _).bind fun _ => respects_pure _
    · rintro s _ ⟨t, hl, hk, hfiles⟩
      exact lagging_flush hK s.wiring.stdout s _ ⟨t, hl, hk, hfiles⟩
  rw [invoke, redirected_eq]
  refine (lagging_openDestination .stdout h hcall.first).bind_of_ok fun _ s₁ t₁ hout h₁ => ?_
  refine Agree.ensure ?_ fun s t h => hclose .stdout _ s t h
  rw [openDestination_apply] at hout
  have hsecond : ∀ place u,
      c.redirection.stderr.openIn s₁.world.dir s₁.world.tree = .ok (some place) u →
        Settled g place := by
    intro place u hopen
    cases hin : c.redirection.stdout.openIn s.world.dir s.world.tree with
    | error f u' =>
      rw [hin] at hout
      cases hout
    | ok opened u' =>
      rw [hin] at hout
      cases hout
      rw [took_dir, took_tree] at hopen
      exact hcall.second opened u' place u hin hopen
  refine (lagging_openDestination .stderr h₁ hsecond).bind_of_ok fun _ s₂ t₂ herr h₂ => ?_
  have hopened : openTargets c.redirection s = .ok () s₂ := by
    rw [openTargets, Attempt.bind_apply, openDestination_apply, hout]
    exact herr
  have hcopies := h₂.mono (hcall.copies s₂ hopened)
  have hagree := (lagging_bound (rewire c.redirection) hcalled).ensure
    (lagging_closeDestination hK .stderr c.redirection.stderr) s₂ t₂ hcopies
  exact hagree.mono (fun _ _ h => h.mono trivial) fun _ _ h => h.mono trivial

end Shell

end PipelineShell
