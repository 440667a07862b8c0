import PipelineShell.Proofs.Lag.Calls
import PipelineShell.Proofs.Lag.Closings
import PipelineShell.Proofs.Transparency.Stages

/-! Two runs of the same stages, in one of which a file is still to get something. As long as no
stage opens or copies that file, each does the same in both, and when the job ends the files are the
same. -/

namespace PipelineShell

open Attempt FileTree

namespace Shell

variable {τ : Type} {g : Option Lag} {s t : Shell τ}

/-- The first shell is behind the second. What a stage has for itself may differ too. -/
structure Behind (g : Option Lag) (s t : Shell τ) : Prop where
  lagging : Lagging g (fun _ => True) s { t with given := s.given, captured := s.captured }

theorem Lagging.behind (h : Lagging g (fun _ => True) s t) : Behind g s t := by
  have hsame : { t with given := s.given, captured := s.captured } = t := by
    rw [h.same]
    rfl
  exact ⟨hsame.symm ▸ h⟩

namespace Behind

variable (h : Behind g s t)

include h

theorem same : t =
    { s.setTree t.world.tree with given := t.given, captured := t.captured } :=
  congrArg (fun u : Shell τ => { u with given := t.given, captured := t.captured }) h.lagging.same

theorem lags : Lags g s.world.tree t.world.tree :=
  h.lagging.lags

theorem registry : t.registry = s.registry := by
  rw [h.same]
  rfl

theorem wiring : t.wiring = s.wiring := by
  rw [h.same]
  rfl

theorem dir : t.world.dir = s.world.dir := by
  rw [h.same]
  rfl

theorem setTree {u u' : FileTree} (hu : Lags g u u') : Behind g (s.setTree u) (t.setTree u') :=
  ⟨h.lagging.setTree hu⟩

theorem setTree_none {u u' : FileTree} (hu : Lags none u u') :
    Behind none (s.setTree u) (t.setTree u') :=
  ⟨h.lagging.setTree_none hu⟩

end Behind

/-- A target that stays open is opened alike, unless something is still to come to its place. -/
theorem behind_openHeld {d : Destination} (h : Behind g s t) (hplace : ∀ place u,
    d.openIn s.world.dir s.world.tree = .ok (some place) u → Settled g place) :
    Agree (Behind g) (Behind g) (openHeld d s) (openHeld d t) := by
  have hopen := agree_openIn h.lags hplace
  rw [openHeld_apply, openHeld_apply, h.dir]
  generalize d.openIn s.world.dir s.world.tree = x at hopen ⊢
  generalize d.openIn s.world.dir t.world.tree = y at hopen ⊢
  cases hopen with
  | ok hl => exact .ok (h.setTree hl)
  | error hl => exact .error (h.setTree hl)

theorem openHeld_eq_ok {d : Destination} {w : Option BlockWriter} : openHeld d s = .ok w t ↔
    ∃ place u, d.openIn s.world.dir s.world.tree = .ok place u ∧
      w = place.map (BlockWriter.start · d.append) ∧ t = s.setTree u := by
  rw [openHeld_apply]
  cases d.openIn s.world.dir s.world.tree with
  | error f u => simp
  | ok place u =>
    constructor
    · rintro ⟨⟩
      exact ⟨place, u, rfl, rfl, rfl⟩
    · rintro ⟨_, _, ⟨rfl, rfl⟩, rfl, rfl⟩
      rfl

end Shell

namespace Job

open Shell

variable {g : Option Lag} {earlier : List BlockWriter} {x y j : Job CommandTag} {c : Command}
  {last : Bool} {e : Engine CommandTag}

/-- The shell of the first job is behind that of the second, and the first has files open that make
up for it. -/
structure Lagging (g : Option Lag) (earlier : List BlockWriter) (x y : Job CommandTag) : Prop where
  shell : Behind g x.shell y.shell
  left : y.leftText = x.leftText
  still : ∀ pipe pieces, x.pending ≠ .stream pipe pieces ∧ y.pending ≠ .stream pipe pieces
  keepGoing : y.keepGoing = x.keepGoing
  alone : x.processes = []
  alone' : y.processes = []
  numbered : x.Numbered
  numbered' : y.Numbered
  files : ∃ later mine, x.files.map (·.2) = later ++ (mine ++ earlier) ∧
    y.files.map (·.2) = later ++ earlier ∧ (∀ w ∈ later, Settled g w.place) ∧ Due g mine

/-- The same is pending in both jobs besides. -/
structure Abreast (g : Option Lag) (earlier : List BlockWriter) (x y : Job CommandTag) : Prop
    extends Lagging g earlier x y where
  pending : y.pending = x.pending

theorem Abreast.hold (h : Abreast g earlier x y) {s t : Shell CommandTag} (hs : Behind g s t)
    {w : Option BlockWriter} (hw : ∀ v, w = some v → Settled g v.place) :
    Abreast g earlier (x.hold w s) (y.hold w t) := by
  obtain ⟨later, mine, hx, hy, hlater, hmine⟩ := h.files
  refine ⟨⟨?_, ?_, ?_, ?_, ?_, ?_, h.numbered.hold w s, h.numbered'.hold w t, w.toList ++ later,
    mine, ?_, ?_, ?_, hmine⟩, ?_⟩
  · rw [hold_shell, hold_shell]
    exact hs
  · simpa only [leftText, hold_pending] using h.left
  · simpa only [hold_pending] using h.still
  · rw [hold_keepGoing, hold_keepGoing, h.keepGoing]
  · rw [hold_processes, h.alone]
  · rw [hold_processes, h.alone']
  · rw [map_files_hold, hx, List.append_assoc]
  · rw [map_files_hold, hy, List.append_assoc]
  · intro v hv
    rcases List.mem_append.mp hv with hv | hv
    · exact hw v (Option.mem_toList.mp hv)
    · exact hlater v hv
  · rw [hold_pending, hold_pending, h.pending]

theorem Abreast.setPending (h : Abreast g earlier x y) (text : String) :
    Abreast g earlier { x with pending := .text text } { y with pending := .text text } :=
  ⟨⟨h.shell, rfl, fun _ _ => ⟨nofun, nofun⟩, h.keepGoing, h.alone, h.alone',
    ⟨h.numbered.nodup, h.numbered.below⟩, ⟨h.numbered'.nodup, h.numbered'.below⟩, h.files⟩, rfl⟩

section

variable {τ : Type} {e : Engine τ} {j : Job τ}

theorem runEmpty_apply (r : Redirection) (j : Job τ) : runEmpty e r j =
    match openHeld r.stderr j.shell with
    | .error f s => .error f { j with shell := s }
    | .ok err s =>
      match openHeld r.stdout s with
      | .error f t => .error f ((j.hold err s).hold none t)
      | .ok out t =>
        takeIn e (out.map fun _ => (j.hold err s).fresh) ((j.hold err s).hold out t) := by
  rw [runEmpty_eq, Attempt.bind_apply, openDestination_apply]
  cases openHeld r.stderr j.shell with
  | error f s => rfl
  | ok err s =>
    dsimp only
    rw [Attempt.bind_apply, openDestination_apply, hold_shell]
    cases openHeld r.stdout s <;> rfl

theorem setFile_hold (hj : j.Numbered) (w w' : BlockWriter) (s : Shell τ) (t : FileTree) :
    (j.hold (some w) s).setFile j.fresh w' t = j.hold (some w') (s.setTree t) := by
  have hother : ∀ f ∈ j.files, (if f.1 = j.fresh then (j.fresh, w') else f) = f := by
    intro f hf
    rw [if_neg (Nat.ne_of_lt (hj.below f hf))]
  have hfiles : j.files.map (fun f => if f.1 = j.fresh then (j.fresh, w') else f) = j.files := by
    simpa only [List.map_id_fun', id] using List.map_congr_left hother
  simp [setFile, hold, hfiles, setTree, Shell.setTree]

theorem takeIn_hold (hj : j.Numbered) (hstill : ∀ pipe pieces, j.pending ≠ .stream pipe pieces)
    (place : Location) (append : Bool) (s : Shell τ) :
    takeIn e (some j.fresh) (j.hold (some (.start place append)) s) =
      match BlockWriter.write (Text.encode j.leftText) (.start place append, s.world.tree) with
      | .ok _ p => .ok () { j.hold (some p.1) (s.setTree p.2) with pending := .text "" }
      | .error f p => .error (.fault f) (j.hold (some p.1) (s.setTree p.2)) := by
  have hfile := file?_hold j (.start place append) s
  rw [takeIn, Attempt.bind_of_ok (Attempt.get_apply _), Attempt.bind_apply, hold_pending]
  unfold leftText
  cases hp : j.pending with
  | stream pipe pieces => exact absurd hp (hstill pipe pieces)
  | nothing =>
    have hnone : (Text.encode "").size ≤ s.world.tree.blockSize := Nat.zero_le _
    have hwrite := BlockWriter.write_start_of_le place append hnone
    rw [hwrite]
    rfl
  | text text =>
    simp only [pour, onFile_of_file? hfile, hold_shell, setFile_hold hj]
    cases BlockWriter.write (Text.encode text) (.start place append, s.world.tree) <;> rfl

end

/-- Nothing is still to come to what a stage opens and copies. -/
structure Untouched (g : Option Lag) (c : Command) (last : Bool) (j : Job CommandTag) : Prop where
  first : ∀ place t, c.opensFirst.openIn j.shell.world.dir j.shell.world.tree =
    .ok (some place) t → Settled g place
  second : ∀ opened t place u, c.opensFirst.openIn j.shell.world.dir j.shell.world.tree =
    .ok opened t → c.opensSecond.openIn j.shell.world.dir t = .ok (some place) u → Settled g place
  copies : ∀ tag entry, Enters c last j tag entry → Copies g tag c.args entry.world

theorem abreast_takeIn (h : Abreast g earlier x y) {s t : Shell CommandTag} (hs : Behind g s t)
    {w : Option BlockWriter} (hw : ∀ v, w = some v → Settled g v.place ∧
      ∃ place append, v = .start place append) :
    Agree (Abreast g earlier) (Abreast g earlier)
      (takeIn e (w.map fun _ => x.fresh) (x.hold w s))
      (takeIn e (w.map fun _ => y.fresh) (y.hold w t)) := by
  cases w with
  | none => exact .ok (h.hold hs nofun)
  | some v =>
    obtain ⟨hplace, place, append, rfl⟩ := hw v rfl
    have hwrite := BlockWriter.trails_write (g := g) (K := fun _ => True) (fun _ _ _ _ => trivial)
      (Text.encode x.leftText) (.start place append, s.world.tree)
      (.start place append, t.world.tree) ⟨rfl, hplace, hs.lags, trivial⟩
    rw [Option.map_some, Option.map_some, takeIn_hold h.numbered fun p q => (h.still p q).1,
      takeIn_hold h.numbered' fun p q => (h.still p q).2, h.left]
    generalize BlockWriter.write (Text.encode x.leftText) (.start place append, s.world.tree) = v
      at hwrite ⊢
    generalize BlockWriter.write (Text.encode x.leftText) (.start place append, t.world.tree) = w
      at hwrite ⊢
    have hheld : ∀ p q : BlockWriter × FileTree,
        Trails g (fun _ => True) BlockWriter.place p q →
          Abreast g earlier (x.hold (some p.1) (s.setTree p.2))
            (y.hold (some q.1) (t.setTree q.2)) := by
      rintro ⟨_, u⟩ ⟨f, u'⟩ ⟨rfl, hf, hl, -⟩
      refine h.hold (hs.setTree hl) ?_
      rintro _ ⟨⟩
      exact hf
    cases hwrite with
    | ok hp => exact .ok ((hheld _ _ hp).setPending "")
    | error hp => exact .error (hheld _ _ hp)

theorem abreast_runEmpty (hc : c.isEmpty = true) (h : Abreast g earlier x y)
    (hun : Untouched g c last x) : Agree (Abreast g earlier) (Abreast g earlier)
      (runEmpty e c.redirection x) (runEmpty e c.redirection y) := by
  have hfirst : c.opensFirst = c.redirection.stderr := if_pos hc
  have hsecond : c.opensSecond = c.redirection.stdout := if_pos hc
  have hun₁ := hun.first
  have hun₂ := hun.second
  rw [hfirst] at hun₁ hun₂
  rw [hsecond] at hun₂
  have herr := behind_openHeld h.shell hun₁
  rw [runEmpty_apply, runEmpty_apply]
  cases hx : openHeld c.redirection.stderr x.shell with
  | error f s =>
    rw [hx] at herr
    generalize openHeld c.redirection.stderr y.shell = v at herr ⊢
    cases herr with
    | error hs => exact .error (h.hold (w := none) hs nofun)
  | ok err s =>
    rw [hx] at herr
    generalize openHeld c.redirection.stderr y.shell = v at herr ⊢
    cases herr with
    | @ok _ _ t hs =>
      obtain ⟨opened, u, hin, rfl, rfl⟩ := openHeld_eq_ok.mp hx
      have hwriter : ∀ w, opened.map (BlockWriter.start · c.redirection.stderr.append) =
          some w → Settled g w.place := by
        intro w hw
        obtain ⟨place, rfl, rfl⟩ := Option.map_eq_some_iff.mp hw
        exact hun₁ place u hin
      have hheld := h.hold hs hwriter
      have hout := behind_openHeld (d := c.redirection.stdout) hs fun place u' =>
        hun₂ opened u place u' hin
      dsimp only
      cases hx' : openHeld c.redirection.stdout (x.shell.setTree u) with
      | error f s' =>
        rw [hx'] at hout
        generalize openHeld c.redirection.stdout t = v at hout ⊢
        cases hout with
        | error hs' => exact .error (hheld.hold (w := none) hs' nofun)
      | ok out s' =>
        rw [hx'] at hout
        generalize openHeld c.redirection.stdout t = v at hout ⊢
        cases hout with
        | ok hs' =>
          obtain ⟨place, u', hin', rfl, rfl⟩ := openHeld_eq_ok.mp hx'
          refine abreast_takeIn hheld hs' ?_
          rintro w hw
          obtain ⟨place, rfl, rfl⟩ := Option.map_eq_some_iff.mp hw
          exact ⟨hun₂ opened u place u' hin hin', place, _, rfl⟩

theorem Untouched.call (h : Untouched g c last j) {tag : CommandTag} (hc : c.isEmpty = false)
    (hb : j.shell.registry.isBuiltin c.name = true)
    (htag : j.shell.registry.resolve c.name = .ok tag) :
    Shell.Untouched g tag c (j.builtinShell last) := by
  have hfirst : c.opensFirst = c.redirection.stdout := if_neg (by simp [hc])
  have hsecond : c.opensSecond = c.redirection.stderr := if_neg (by simp [hc])
  refine ⟨?_, ?_, fun s hs => ?_⟩
  · rw [← hfirst]
    exact h.first
  · rw [← hfirst, ← hsecond]
    exact h.second
  · have hentry : Enters c last j tag { s with wiring := rewire c.redirection s.wiring } :=
      ⟨hc, hb, htag, s, hs, rfl⟩
    exact h.copies tag { s with wiring := rewire c.redirection s.wiring } hentry

section

variable (he : e.handler = Session.runCommand)

include he

theorem abreast_runBuiltin (h : Abreast g earlier x y) {tag : CommandTag}
    (hcall : Shell.Untouched g tag c (x.builtinShell last)) :
    Agree (Abreast g earlier) (Abreast g earlier)
      (runBuiltin e tag c last x) (runBuiltin e tag c last y) := by
  have hdrained : y.drained = x.drained := by
    unfold drained
    rw [h.pending]
  have hentry : Shell.Lagging g (fun _ => True) (x.builtinShell last) (y.builtinShell last) := by
    have hmap := h.shell.lagging.map (fun s => { s with
        given := x.drained.getD ""
        captured := ""
        wiring := stageWiring x.drained.isSome last s.wiring })
      (fun _ => rfl) rfl (fun _ => trivial) fun stream => by cases stream <;> rfl
    unfold builtinShell
    rw [hdrained]
    exact hmap
  have hwired : ∀ u v : Shell CommandTag, Shell.Lagging g (fun _ => True) u v →
      Behind g { u with wiring := x.shell.wiring } { v with wiring := y.shell.wiring } := by
    intro u v huv
    have hmap := huv.map (fun s => { s with wiring := x.shell.wiring })
      (fun _ => rfl) rfl (fun _ => trivial) fun stream => by cases stream <;> rfl
    rw [h.shell.wiring]
    exact hmap.behind
  have hemptied : ∀ j : Job CommandTag, (∀ pipe pieces, j.pending ≠ .stream pipe pieces) →
      j.emptied.pending = j.pending := by
    intro j hj
    unfold emptied
    cases hp : j.pending with
    | stream pipe pieces => exact absurd hp (hj pipe pieces)
    | _ => rfl
  have hpending : y.emptied.pending = x.emptied.pending := by
    rw [hemptied x fun p q => (h.still p q).1, hemptied y fun p q => (h.still p q).2, h.pending]
  have hinvoke := lagging_invoke he hentry hcall
  rw [runBuiltin_apply, runBuiltin_apply]
  generalize invoke _ tag c (x.builtinShell last) = v at hinvoke ⊢
  generalize invoke _ tag c (y.builtinShell last) = w at hinvoke ⊢
  cases hinvoke with
  | @ok b u v huv =>
    have hcaptured : v.captured = u.captured := by
      rw [huv.same]
      rfl
    have hp : (if last = true then Pending.nothing else .text v.captured) =
        if last = true then .nothing else .text u.captured := by rw [hcaptured]
    refine .ok ⟨⟨hwired u v huv, ?_, ?_, ?_, ?_, ?_, ⟨h.numbered.nodup, h.numbered.below⟩,
      ⟨h.numbered'.nodup, h.numbered'.below⟩, h.files⟩, hp⟩
    · simp only [leftText, hp]
    · intro pipe pieces
      cases last <;> exact ⟨nofun, nofun⟩
    · exact congrArg (· && b) h.keepGoing
    · exact h.alone
    · exact h.alone'
  | @error f u v huv =>
    refine .error ⟨⟨hwired u v huv, ?_, ?_, h.keepGoing, h.alone, h.alone',
      ⟨h.numbered.nodup, h.numbered.below⟩, ⟨h.numbered'.nodup, h.numbered'.below⟩, h.files⟩, hpending⟩
    · simp only [leftText, hpending]
    · intro pipe pieces
      simp only [hemptied x fun p q => (h.still p q).1, hemptied y fun p q => (h.still p q).2]
      exact h.still pipe pieces

/-- A stage that is no process does the same in both jobs. -/
theorem abreast_runStage (h : Abreast g earlier x y) (hun : Untouched g c last x)
    (hb : c.isEmpty = false → x.shell.registry.isBuiltin c.name = true) :
    Agree (Abreast g earlier) (Abreast g earlier) (runStage e c last x) (runStage e c last y) := by
  cases hc : c.isEmpty with
  | true =>
    rw [runStage_of_isEmpty hc]
    exact abreast_runEmpty hc h hun
  | false =>
    have hx := hb hc
    obtain ⟨tag, htag⟩ := resolve_of_isBuiltin hx
    have hy := hx
    have htag' := htag
    rw [← h.shell.registry] at hy htag'
    rw [runStage_of_resolve hc hx htag, runStage_of_resolve hc hy htag']
    exact abreast_runBuiltin he h (hun.call hc hx htag)

theorem registry_of_runStage (h : runStage e c last x = .ok () y) :
    y.shell.registry = x.shell.registry :=
  ((orderly_runStage (Session.onlyRoams_of_handler he) c last).ok h).rests.registry

omit he in
theorem passing_append (before cs : List Command) :
    passing e (before ++ cs) = passing e before >>= fun _ => passing e cs := by
  induction before with
  | nil => rfl
  | cons b before ih => rw [List.cons_append, passing, passing, ih, bind_assoc]

theorem abreast_passing {mid rest : List Command} (hrest : rest ≠ []) (h : Abreast g earlier x y)
    (hb : ∀ c ∈ mid, c.isEmpty = false → x.shell.registry.isBuiltin c.name = true)
    (hun : ∀ pre c post i, mid ++ rest = pre ++ c :: post →
      passing e pre x = .ok () i → Untouched g c post.isEmpty i) :
    Agree (Abreast g earlier) (Abreast g earlier) (passing e mid x) (passing e mid y) := by
  induction mid generalizing x y with
  | nil => exact .ok h
  | cons c mid ih =>
    have hmore : (mid ++ rest).isEmpty = false := by simp [hrest]
    have hstage := hun [] c (mid ++ rest) x rfl rfl
    rw [hmore] at hstage
    refine (abreast_runStage he h hstage (hb c (by simp))).bind_of_ok fun _ x' y' hx h' => ?_
    have hregistry := registry_of_runStage he hx
    refine ih h' (fun d hd => hregistry ▸ hb d (by simp [hd])) fun pre d post i hsplit hi => ?_
    refine hun (c :: pre) d post i (by rw [List.cons_append, hsplit, List.cons_append]) ?_
    rw [passing, Attempt.bind_of_ok hx]
    exact hi

theorem abreast_runStages {cs : List Command} (h : Abreast g earlier x y)
    (hb : ∀ c ∈ cs, c.isEmpty = false → x.shell.registry.isBuiltin c.name = true)
    (hun : ∀ pre c post i, cs = pre ++ c :: post →
      passing e pre x = .ok () i → Untouched g c post.isEmpty i) :
    Agree (Abreast g earlier) (Abreast g earlier) (runStages e cs x) (runStages e cs y) := by
  induction cs generalizing x y with
  | nil => exact .ok h
  | cons c cs ih =>
    have hstage := hun [] c cs x rfl rfl
    refine (abreast_runStage he h hstage (hb c (by simp))).bind_of_ok fun _ x' y' hx h' => ?_
    have hregistry := registry_of_runStage he hx
    refine ih h' (fun d hd => hregistry ▸ hb d (by simp [hd])) fun pre d post i hsplit hi => ?_
    refine hun (c :: pre) d post i (by rw [hsplit, List.cons_append]) ?_
    have hmore : cs.isEmpty = false := by simp [hsplit]
    rw [hmore] at hx
    rw [passing, Attempt.bind_of_ok hx]
    exact hi

end

theorem emit_of_own {τ : Type} {j : Job τ} (hw : j.shell.wiring = .own)
    (hstill : ∀ pipe pieces, j.pending ≠ .stream pipe pieces) : emit j = .ok () { j with
      shell := { j.shell with output := j.shell.output.write j.leftText }
      pending := .nothing } := by
  have hout : j.shell.wiring.stdout = .output := by rw [hw]; rfl
  rw [emit_eq, Attempt.bind_of_ok (Attempt.get_apply _), hout]
  unfold leftText
  cases j with
  | mk shell pending keepGoing processes helpers files events fresh =>
    cases pending with
    | nothing => simp [emitTo]
    | text s => rfl
    | stream pipe pieces => exact absurd rfl (hstill pipe pieces)

theorem lagging_emit (h : Lagging g earlier x y) (hw : x.shell.wiring = .own) :
    Agree (Lagging g earlier) (Lagging g earlier) (emit x) (emit y) := by
  have hmap := h.shell.lagging.map (fun s => { s with output := s.output.write x.leftText })
    (fun _ => rfl) rfl (fun _ => trivial) fun stream => by cases stream <;> rfl
  rw [emit_of_own hw fun p q => (h.still p q).1,
    emit_of_own (h.shell.wiring.trans hw) fun p q => (h.still p q).2, h.left]
  exact .ok ⟨⟨hmap⟩, rfl, fun _ _ => ⟨nofun, nofun⟩, h.keepGoing, h.alone, h.alone',
    ⟨h.numbered.nodup, h.numbered.below⟩, ⟨h.numbered'.nodup, h.numbered'.below⟩, h.files⟩

/-- Nothing is still to come to the shell of either job. -/
structure Level (x y : Job CommandTag) : Prop where
  shell : Behind none x.shell y.shell
  keepGoing : y.keepGoing = x.keepGoing

theorem level_finish {room : Nat} (h : Lagging g earlier x y) :
    Agree Level Level (finish room x) (finish room y) := by
  obtain ⟨later, mine, hx, hy, hlater, hmine⟩ := h.files
  have hclosing := agree_closing earlier h.shell.lags hlater hmine
  rw [finish_eq h.numbered (not_stuck_of_processes h.alone),
    finish_eq h.numbered' (not_stuck_of_processes h.alone'), hx, hy]
  generalize closing (later ++ (mine ++ earlier)) x.shell.world.tree = v at hclosing ⊢
  generalize closing (later ++ earlier) y.shell.world.tree = w at hclosing ⊢
  have hlevel : ∀ u u', Lags none u u' →
      Level (x.stopped.shut x.files u) (y.stopped.shut y.files u') := by
    intro u u' hu
    refine ⟨?_, ?_⟩
    · simpa [shut, Job.setTree, Shell.setTree] using h.shell.setTree_none hu
    · simpa [shut, setTree] using h.keepGoing
  cases hclosing with
  | ok hu => exact .ok (hlevel _ _ hu)
  | error hu => exact .error (hlevel _ _ hu)

end Job

end PipelineShell
