import Mathlib.Data.List.Basic
import PipelineShell.Execution
import PipelineShell.Proofs.Relays.Links

/-! Chains of processes with a relay between each two. What happens in a chain happens on one of its
links, in any order. -/

namespace PipelineShell.Relay

/-! However a relay cuts into reads what was written, it is the same when put together. -/

theorem toList_joined (pieces : List ByteArray) :
    (joined pieces).data.toList = pieces.flatMap fun piece => piece.data.toList := by
  have h : ∀ written : ByteArray, (pieces.foldl (· ++ ·) written).data.toList =
      written.data.toList ++ pieces.flatMap fun piece => piece.data.toList := by
    induction pieces with
    | nil => simp
    | cons piece pieces ih =>
      intro written
      rw [List.foldl_cons, ih, List.flatMap_cons, ← List.append_assoc]
      simp
  exact h .empty

theorem toList_readsFrom {size : Nat} (hsize : 0 < size) (piece : ByteArray) (i : Nat)
    (done : List ByteArray) :
    (readsFrom size piece i done).reverse.flatMap (fun read => read.data.toList) =
      done.reverse.flatMap (fun read => read.data.toList) ++ piece.data.toList.drop i := by
  fun_induction readsFrom size piece i done with
  | case1 i done hend =>
    have hdrop : piece.data.toList.drop i = [] := by
      refine List.drop_eq_nil_of_le ?_
      have hle : piece.size ≤ i := hend.resolve_left (Nat.ne_of_gt hsize)
      simpa using hle
    rw [hdrop, List.append_nil]
  | case2 i done hmore ih =>
    have hread : (piece.extract i (i + size)).data.toList =
        (piece.data.toList.drop i).take size := by
      simp
    have hsplit : (piece.data.toList.drop i).take size ++ piece.data.toList.drop (i + size) =
        piece.data.toList.drop i := by
      rw [← List.drop_drop, List.take_append_drop]
    rw [ih, List.reverse_cons, List.flatMap_append, List.append_assoc, List.flatMap_singleton,
      hread, hsplit]

/-- Something comes of a read of this size. -/
def Granted (host : Host) (size : Int) : Prop :=
  0 < readSize host size

instance (host : Host) (size : Int) : Decidable (Granted host size) :=
  inferInstanceAs (Decidable (_ < _))

theorem joined_copy {host : Host} {size : Int} (hsize : Granted host size)
    (pieces : List ByteArray) : joined (copy host size pieces) = joined pieces := by
  refine ByteArray.ext (Array.toList_inj.mp ?_)
  rw [toList_joined, toList_joined, copy, List.flatMap_assoc]
  refine List.flatMap_congr fun piece _ => ?_
  rw [toList_readsFrom hsize]
  rfl

abbrev Chain := List Link

namespace Chain

def start (stages : Nat) : Chain :=
  List.replicate (stages - 1) .start

def act (size : Nat) (links : Chain) (m : Nat × Move) : Option Chain :=
  links[m.1]?.bind fun l => (l.act size m.2).map (links.set m.1)

def run (size : Nat) : Chain → List (Nat × Move) → Option Chain
  | links, [] => some links
  | links, m :: ms => (act size links m).bind fun links => run size links ms

def own (i : Nat) (ms : List (Nat × Move)) : List Move :=
  ms.filterMap fun m => if m.1 = i then some m.2 else none

variable {size : Nat} {links links' : Chain} {i : Nat} {l' : Link}

theorem exists_act {m : Nat × Move} (h : act size links m = some links')
    (hl : links'[i]? = some l') :
    ∃ l, links[i]? = some l ∧ if m.1 = i then l.act size m.2 = some l' else l = l' := by
  obtain ⟨l, hget, hset⟩ := Option.bind_eq_some_iff.mp h
  obtain ⟨l₁, hstep, rfl⟩ := Option.map_eq_some_iff.mp hset
  by_cases hi : m.1 = i
  · subst hi
    have hlt := (List.getElem?_eq_some_iff.mp hget).1
    rw [List.getElem?_set_self hlt] at hl
    cases hl
    exact ⟨l, hget, by rw [if_pos rfl]; exact hstep⟩
  · rw [List.getElem?_set_ne hi] at hl
    exact ⟨l', hl, by rw [if_neg hi]⟩

/-- What happens on one link is up to the moves on it, whatever happens on the others. -/
theorem exists_run_own {ms : List (Nat × Move)} (h : run size links ms = some links')
    (hl : links'[i]? = some l') : ∃ l, links[i]? = some l ∧ l.run size (own i ms) = some l' := by
  induction ms generalizing links with
  | nil =>
    cases h
    exact ⟨l', hl, rfl⟩
  | cons m ms ih =>
    obtain ⟨links₁, hact, hrest⟩ := Option.bind_eq_some_iff.mp h
    obtain ⟨l₁, hl₁, hrun⟩ := ih hrest
    obtain ⟨l, hget, hstep⟩ := exists_act hact hl₁
    refine ⟨l, hget, ?_⟩
    split at hstep
    · next hi =>
      have hown : own i (m :: ms) = m.2 :: own i ms := by simp [own, hi]
      rw [hown, Link.run, hstep]
      exact hrun
    · next hi =>
      have hown : own i (m :: ms) = own i ms := by simp [own, hi]
      rw [hown, hstep]
      exact hrun

theorem length_run {ms : List (Nat × Move)} (h : run size links ms = some links') :
    links'.length = links.length := by
  induction ms generalizing links with
  | nil =>
    cases h
    rfl
  | cons m ms ih =>
    obtain ⟨links₁, hact, hrest⟩ := Option.bind_eq_some_iff.mp h
    obtain ⟨l, -, hset⟩ := Option.bind_eq_some_iff.mp hact
    obtain ⟨l₁, -, rfl⟩ := Option.map_eq_some_iff.mp hset
    rw [ih hrest, List.length_set]

end Chain

/-- In a chain of any length, with reads of any sizes and all moves in any order, each link delivers
what was written to it: what is received and what is on its way are the first bytes that were
written, the end is seen when all of them are received, and the relay stops without a report, with
both of its pipes closed. When the input is closed before, the relay goes on for four steps at most,
and it never is at a stand but waiting for what comes next. No link depends on the moves on another
one. What a job gives a process to read is what is received till the end. -/
theorem chain_delivers {size stages : Nat} (hsize : 1 ≤ size) {ms : List (Nat × Move)}
    {links : Chain} (h : Chain.run size (.start stages) ms = some links) :
    links.length = stages - 1 ∧ ∀ i l, links[i]? = some l →
      Link.start.run size (Chain.own i ms) = some l ∧
      l.received ++ l.inFlight <+: l.written ∧
      (l.sawEnd = true → l.ended = true ∧ l.received = l.written) ∧
      (∀ report, l.phase = .stopped report →
        report = none ∧ l.sourceOpen = false ∧ l.sinkOpen = false) ∧
      (l.phase = .stopped none ∨ l.Waits ∨ ∃ n, (l.relay size n).isSome = true) ∧
      (l.closed = true → ∀ more links' l', Chain.run size links more = some links' →
        links'[i]? = some l' →
        l'.received = l.received ∧ (Chain.own i more).countP Move.isRelay ≤ 4) ∧
      ∀ (τ : Type) (e : Engine τ) (j : Job τ) (pipe : Nat) (pieces : List ByteArray),
        Granted e.host e.chunkSize → j.pending = .stream pipe pieces →
        (joined pieces).data.toList = l.written → l.sawEnd = true →
        (j.inputFor e).data.toList = l.received := by
  refine ⟨(Chain.length_run h).trans (List.length_replicate ..), fun i l hl => ?_⟩
  obtain ⟨first, hfirst, hrun⟩ := Chain.exists_run_own h hl
  obtain rfl : first = Link.start := (List.mem_replicate.mp (List.mem_of_getElem? hfirst)).2
  have hsound := Link.sound_start.run hrun
  refine ⟨hrun, hsound.received_inFlight, hsound.sawEnd, fun report hp => ?_,
    hsound.can_relay hsize, fun hclosed more links' l' hmore hl' => ?_, ?_⟩
  · have hreport := hsound.report
    have hsource := hsound.sourceOpen
    have hsink := hsound.sinkOpen
    rw [hp] at hreport hsource hsink
    exact ⟨hreport, hsource, hsink⟩
  · obtain ⟨l₁, hl₁, hrun'⟩ := Chain.exists_run_own hmore hl'
    cases hl.symm.trans hl₁
    obtain ⟨hreceived, hrank⟩ := Link.rank_run hclosed hrun'
    have hmost := Link.Phase.rank_le l.phase
    exact ⟨hreceived, by omega⟩
  · intro τ e j pipe pieces hgranted hp hwritten hend
    rw [Job.inputFor, hp]
    dsimp only
    rw [joined_copy hgranted, hwritten, (hsound.sawEnd hend).2]

def trialMoves : List (Nat × Move) :=
  [(0, .write [1, 2]), (0, .relay 1), (0, .relay 1), (0, .read 1), (0, .relay 1), (1, .write [1]),
    (0, .close), (1, .relay 1), (0, .relay 0), (0, .relay 0), (1, .relay 1), (0, .relay 0),
    (1, .finish), (1, .read 1), (1, .relay 0), (1, .relay 0), (1, .relay 0), (1, .seeEnd)]

def trialChain : Chain :=
  [⟨[1, 2], false, [], false, .stopped none, [], false, [1], false, true⟩,
    ⟨[1], true, [], false, .stopped none, [], false, [1], true, false⟩]

theorem chain_delivers_trial : 1 ≤ 1 ∧ Chain.run 1 (.start 3) trialMoves = some trialChain ∧
    ∀ (i : Nat) (l : Link), trialChain[i]? = some l → l.received ++ l.inFlight <+: l.written ∧
      (l.sawEnd = true → l.ended = true ∧ l.received = l.written) := by
  have hrun : Chain.run 1 (.start 3) trialMoves = some trialChain := by decide
  refine ⟨Nat.le_refl 1, hrun, fun i l hl => ?_⟩
  obtain ⟨-, hbytes, hend, -⟩ := (chain_delivers (Nat.le_refl 1) hrun).2 i l hl
  exact ⟨hbytes, hend⟩

end PipelineShell.Relay
