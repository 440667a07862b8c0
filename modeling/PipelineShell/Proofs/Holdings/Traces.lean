import Mathlib.Data.List.Nodup
import Mathlib.Logic.Function.Basic
import PipelineShell.Job

/-! What a run holds, as the events so far tell it. Each thing that a run takes hold of has a number
that no thing of its kind has had, and is let go once at most. -/

namespace PipelineShell

/-- The kinds of things that a run holds. A pipe is in use until it is closed or nobody is going to
read it any more; then it is spare. While it is offered to the next stage it is the upstream of that
stage too, until somebody takes what comes out of it. -/
inductive Kind
  | upstream
  | pipe
  | spare
  | process
  | helper
  | file
deriving DecidableEq

/-- Things of these other kinds are let go before those of a kind are: no pipe is closed behind the
back of the stage that is next, no process is waited for while a pipe is in use, and pipes that are
spare and files are closed when nobody works any more. -/
def Kind.awaited : Kind → List Kind
  | upstream => []
  | pipe => [upstream]
  | process => [pipe]
  | helper => [process]
  | spare => [helper]
  | file => [helper, spare]

theorem Kind.awaited_ne {k k' : Kind} (h : k' ∈ k.awaited) : k' ≠ k := by
  rintro rfl
  cases k' <;> exact absurd h (by decide)

inductive Turn
  | takes (k : Kind) (n : Nat)
  | leaves (k : Kind) (n : Nat)
deriving DecidableEq

/-- What an event means for the things that are held, the latest first. -/
def Event.turns : Event → List Turn
  | .spawned n => [.takes .process n]
  | .waited n => [.leaves .process n]
  | .started n => [.takes .helper n]
  | .joined n => [.leaves .helper n]
  | .opened n => [.takes .file n]
  | .shut n => [.leaves .file n]
  | .piped n => [.takes .pipe n]
  | .closed n => [.leaves .pipe n]
  | .forsaken n => [.takes .spare n, .leaves .pipe n]
  | .discarded n => [.leaves .spare n]
  | .offered n => [.takes .upstream n]
  | .claimed n _ => [.leaves .upstream n]

def turns (es : List Event) : List Turn :=
  es.flatMap Event.turns

@[simp] theorem turns_cons (e : Event) (es : List Event) :
    turns (e :: es) = e.turns ++ turns es :=
  List.flatMap_cons

theorem turns_map_append {event : Nat → Event} {k : Kind}
    (h : ∀ n, (event n).turns = [.leaves k n]) (ns : List Nat) (es : List Event) :
    turns (ns.map event ++ es) = ns.map (.leaves k) ++ turns es := by
  induction ns with
  | nil => rfl
  | cons n ns ih => simp [h, ih]

/-- The numbers of the things held, the latest first, and for each kind a number that none has
had. -/
structure Holdings where
  held : Kind → List Nat
  next : Kind → Nat

namespace Holdings

def initial : Holdings := ⟨fun _ => [], fun _ => 0⟩

/-- What is held after a turn, unless the turn is out of order: a number is taken again or left
without being held, a pipe is offered that is not in use or before the last one has been taken, or a
thing is let go too early. -/
def after (h : Holdings) : Turn → Option Holdings
  | .takes k n =>
    if h.next k ≤ n ∧ (k = .upstream → h.held .upstream = [] ∧ n ∈ h.held .pipe) then
      some ⟨Function.update h.held k (n :: h.held k), Function.update h.next k (n + 1)⟩
    else none
  | .leaves k n =>
    if n ∈ h.held k ∧ ∀ k' ∈ k.awaited, h.held k' = [] then
      some ⟨Function.update h.held k ((h.held k).erase n), h.next⟩
    else none

/-- What is held after the turns, the last of which stands first. -/
def replay : List Turn → Option Holdings
  | [] => some initial
  | t :: ts => (replay ts).bind fun h => h.after t

variable {h h' : Holdings} {k : Kind} {n : Nat} {t : Turn} {ts : List Turn}

theorem after_takes_iff : h.after (.takes k n) = some h' ↔
    h.next k ≤ n ∧ (k = .upstream → h.held .upstream = [] ∧ n ∈ h.held .pipe) ∧
      h' = ⟨Function.update h.held k (n :: h.held k), Function.update h.next k (n + 1)⟩ := by
  simp only [after, Option.ite_none_right_eq_some, Option.some.injEq, eq_comm (a := h'), and_assoc]

theorem after_leaves_iff : h.after (.leaves k n) = some h' ↔
    n ∈ h.held k ∧ (∀ k' ∈ k.awaited, h.held k' = []) ∧
      h' = ⟨Function.update h.held k ((h.held k).erase n), h.next⟩ := by
  simp only [after, Option.ite_none_right_eq_some, Option.some.injEq, eq_comm (a := h'), and_assoc]

theorem replay_cons_iff :
    replay (t :: ts) = some h' ↔ ∃ h, replay ts = some h ∧ h.after t = some h' :=
  Option.bind_eq_some_iff

theorem exists_replay_of_suffix {past : List Turn} (hpast : past <:+ ts)
    (h : replay ts = some h') : ∃ h, replay past = some h := by
  induction ts generalizing h' with
  | nil => exact ⟨h', List.suffix_nil.mp hpast ▸ h⟩
  | cons t ts ih =>
    rcases List.suffix_cons_iff.mp hpast with rfl | hpast
    · exact ⟨h', h⟩
    · obtain ⟨h, hts, -⟩ := replay_cons_iff.mp h
      exact ih hpast hts

/-- The numbers are different and have been given, and there is one upstream at most, a pipe in
use. -/
structure Sound (h : Holdings) : Prop where
  nodup : ∀ k, (h.held k).Nodup
  below : ∀ k, ∀ n ∈ h.held k, n < h.next k
  upstream : (h.held .upstream).length ≤ 1
  inUse : h.held .upstream ⊆ h.held .pipe

theorem sound_initial : initial.Sound :=
  ⟨fun _ => List.nodup_nil, fun _ _ h => (nomatch h), Nat.zero_le 1, List.nil_subset _⟩

theorem Sound.after_takes (hs : h.Sound) (ht : h.after (.takes k n) = some h') : h'.Sound := by
  obtain ⟨hn, hup, rfl⟩ := after_takes_iff.mp ht
  have hnew : n ∉ h.held k := fun hmem => Nat.not_lt.mpr hn (hs.below k n hmem)
  refine ⟨fun k' => ?_, fun k' m hm => ?_, ?_, ?_⟩
  · by_cases hk : k' = k
    · subst hk
      simpa using ⟨hnew, hs.nodup k'⟩
    · simpa [hk] using hs.nodup k'
  · dsimp only at hm ⊢
    by_cases hk : k' = k
    · subst hk
      rw [Function.update_self] at hm ⊢
      rcases List.mem_cons.mp hm with rfl | hm
      · exact Nat.lt_succ_self m
      · exact Nat.lt_succ_of_lt (Nat.lt_of_lt_of_le (hs.below k' m hm) hn)
    · rw [Function.update_of_ne hk] at hm ⊢
      exact hs.below k' m hm
  · by_cases hk : k = .upstream
    · subst hk
      simp [(hup rfl).1]
    · simpa [Ne.symm hk] using hs.upstream
  · by_cases hk : k = .upstream
    · subst hk
      obtain ⟨hnone, hpipe⟩ := hup rfl
      simpa [hnone] using hpipe
    · dsimp only
      rw [Function.update_of_ne (Ne.symm hk)]
      by_cases hk' : k = .pipe
      · subst hk'
        rw [Function.update_self]
        exact List.subset_cons_of_subset n hs.inUse
      · rw [Function.update_of_ne (Ne.symm hk')]
        exact hs.inUse

theorem Sound.after_leaves (hs : h.Sound) (ht : h.after (.leaves k n) = some h') : h'.Sound := by
  obtain ⟨hn, hearly, rfl⟩ := after_leaves_iff.mp ht
  have hsub : ∀ k', (Function.update h.held k ((h.held k).erase n) k').Sublist (h.held k') := by
    intro k'
    by_cases hk : k' = k
    · subst hk
      simpa using List.erase_sublist
    · simp [hk]
  refine ⟨fun k' => (hsub k').nodup (hs.nodup k'),
    fun k' m hm => hs.below k' m ((hsub k').subset hm),
    Nat.le_trans (hsub .upstream).length_le hs.upstream, ?_⟩
  by_cases hk : k = .pipe
  · subst hk
    have hnone : h.held .upstream = [] := hearly .upstream (List.mem_singleton_self _)
    simp [hnone]
  · refine List.Subset.trans (hsub .upstream).subset ?_
    dsimp only
    rw [Function.update_of_ne (Ne.symm hk)]
    exact hs.inUse

theorem sound_replay (h : replay ts = some h') : h'.Sound := by
  induction ts generalizing h' with
  | nil =>
    cases h
    exact sound_initial
  | cons t ts ih =>
    obtain ⟨h, hts, ht⟩ := replay_cons_iff.mp h
    cases t with
    | takes k n => exact (ih hts).after_takes ht
    | leaves k n => exact (ih hts).after_leaves ht

/-! How often a thing is taken and let go. -/

def taken (k : Kind) (n : Nat) (ts : List Turn) : Nat :=
  ts.count (.takes k n)

def left (k : Kind) (n : Nat) (ts : List Turn) : Nat :=
  ts.count (.leaves k n)

/-- What was taken and not yet let go is held. -/
theorem taken_eq (h : replay ts = some h') (k : Kind) (n : Nat) :
    taken k n ts = left k n ts + (h'.held k).count n := by
  induction ts generalizing h' with
  | nil =>
    cases h
    rfl
  | cons t ts ih =>
    obtain ⟨h, hts, ht⟩ := replay_cons_iff.mp h
    have hcount := ih hts
    unfold taken left at hcount ⊢
    rw [List.count_cons, List.count_cons]
    cases t with
    | takes k' n' =>
      obtain ⟨-, -, rfl⟩ := after_takes_iff.mp ht
      by_cases hk : k = k'
      · subst hk
        simp only [Function.update_self, List.count_cons]
        grind
      · simp only [Function.update_of_ne hk]
        grind
    | leaves k' n' =>
      obtain ⟨hn, -, rfl⟩ := after_leaves_iff.mp ht
      by_cases hk : k = k'
      · subst hk
        have hpos := List.count_pos_iff.mpr hn
        simp only [Function.update_self, List.count_erase]
        grind
      · simp only [Function.update_of_ne hk]
        grind

theorem taken_of_next_le (h : replay ts = some h') (hn : h'.next k ≤ n) : taken k n ts = 0 := by
  induction ts generalizing h' with
  | nil => rfl
  | cons t ts ih =>
    obtain ⟨h, hts, ht⟩ := replay_cons_iff.mp h
    rw [taken, List.count_cons]
    cases t with
    | takes k' n' =>
      obtain ⟨hle, -, rfl⟩ := after_takes_iff.mp ht
      by_cases hk : k = k'
      · subst hk
        have hlt : n' + 1 ≤ n := by simpa using hn
        have hrest := ih hts (by omega)
        unfold taken at hrest
        grind
      · have hrest := ih hts (by simpa [hk] using hn)
        unfold taken at hrest
        grind
    | leaves k' n' =>
      obtain ⟨-, -, rfl⟩ := after_leaves_iff.mp ht
      have hrest := ih hts hn
      unfold taken at hrest
      grind

theorem taken_le_one (h : replay ts = some h') (k : Kind) (n : Nat) : taken k n ts ≤ 1 := by
  induction ts generalizing h' with
  | nil => exact Nat.zero_le 1
  | cons t ts ih =>
    obtain ⟨h, hts, ht⟩ := replay_cons_iff.mp h
    have hrest := ih hts
    by_cases hnew : t = .takes k n
    · subst hnew
      obtain ⟨hle, -, -⟩ := after_takes_iff.mp ht
      have hzero := taken_of_next_le hts hle
      unfold taken at hzero ⊢
      grind
    · unfold taken at hrest ⊢
      grind

theorem replay_leaves {held : Kind → List Nat} {next : Kind → Nat}
    (hearly : ∀ k' ∈ k.awaited, held k' = []) (stay go : List Nat)
    (h : replay ts = some ⟨Function.update held k (stay ++ go), next⟩) :
    replay (go.map (.leaves k) ++ ts) = some ⟨Function.update held k stay, next⟩ := by
  induction go generalizing stay with
  | nil => simpa using h
  | cons n go ih =>
    have hrest := ih (stay ++ [n]) (by simpa using h)
    have hnodup := (sound_replay hrest).nodup k
    have hn : n ∉ stay := by
      simp [List.nodup_append] at hnodup
      grind
    refine replay_cons_iff.mpr ⟨_, hrest, after_leaves_iff.mpr ⟨by simp, fun k' hk' => ?_, ?_⟩⟩
    · simpa [Kind.awaited_ne hk'] using hearly k' hk'
    · simp [List.erase_append_right _ hn]

theorem replay_all_leave {held : Kind → List Nat} {next : Kind → Nat}
    (hearly : ∀ k' ∈ k.awaited, held k' = []) (h : replay ts = some ⟨held, next⟩) :
    replay ((held k).map (.leaves k) ++ ts) = some ⟨Function.update held k [], next⟩ :=
  replay_leaves hearly [] (held k) (by simpa using h)

end Holdings

end PipelineShell
