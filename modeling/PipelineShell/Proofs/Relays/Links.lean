import PipelineShell.Relay

/-! Two processes and the relay between them, step by step. The one before writes to a pipe, the
relay reads from it and writes to another, and the one after reads from that. -/

namespace PipelineShell.Relay

/-- What a relay does next. When it has read everything, or when nobody reads what it writes, it
closes the pipe that it writes to and then the one that it reads from. -/
inductive Phase
  | reading
  | writing (rest : List UInt8)
  | closing (rest : List UInt8) (fault : Option PipeFault)
  | leaving (fault : Option PipeFault)
  | stopped (report : Option PipeFault)
deriving DecidableEq

namespace Phase

def rest : Phase → List UInt8
  | writing rest => rest
  | closing rest _ => rest
  | _ => []

def onward (rest : List UInt8) : Phase :=
  if rest = [] then reading else writing rest

def isOver : Phase → Bool
  | reading => false
  | writing _ => false
  | _ => true

def holdsSink : Phase → Bool
  | leaving _ => false
  | stopped _ => false
  | _ => true

def holdsSource : Phase → Bool
  | stopped _ => false
  | _ => true

def fault? : Phase → Option PipeFault
  | closing _ fault => fault
  | leaving fault => fault
  | _ => none

def report? : Phase → Option PipeFault
  | stopped report => report
  | _ => none

def rank : Phase → Nat
  | reading => 4
  | writing _ => 3
  | closing _ _ => 2
  | leaving _ => 1
  | stopped _ => 0

@[simp] theorem rest_onward (bytes : List UInt8) : (onward bytes).rest = bytes := by
  unfold onward
  split
  · next h => exact h.symm
  · rfl

@[simp] theorem isOver_onward (bytes : List UInt8) : (onward bytes).isOver = false := by
  unfold onward
  split <;> rfl

theorem ne_nil_of_onward {bytes rest : List UInt8} (h : onward bytes = writing rest) :
    rest ≠ [] := by
  unfold onward at h
  split at h <;> cases h
  assumption

theorem of_isOver_eq_false {p : Phase} (h : p.isOver = false) : p.holdsSink = true ∧
    p.holdsSource = true ∧ p.fault? = none ∧ p.report? = none := by
  cases p <;> simp_all [isOver, holdsSink, holdsSource, fault?, report?]

end Phase

/-- One link of a chain: all that the process before has written and whether it has ended, the two
pipes with the relay between them, and what the process after has received, whether it has seen the
end, and whether it has closed its input. -/
structure Link where
  written : List UInt8
  ended : Bool
  source : List UInt8
  sourceOpen : Bool
  phase : Phase
  sink : List UInt8
  sinkOpen : Bool
  received : List UInt8
  sawEnd : Bool
  closed : Bool
deriving DecidableEq

/-- What can happen on a link. The first two moves are those of the process before, the last three
those of the process after. -/
inductive Move
  | write (bytes : List UInt8)
  | finish
  | relay (n : Nat)
  | read (n : Nat)
  | seeEnd
  | close
deriving DecidableEq

def Move.isRelay : Move → Bool
  | relay _ => true
  | _ => false

namespace Link

def start : Link :=
  ⟨[], false, [], true, .reading, [], true, [], false, false⟩

/-- A step of the relay, which moves so many bytes if it moves any. It waits while there is nothing
to read. A write fails when nobody reads, and so does the writing of the rest when the pipe is
closed. -/
def relay (size n : Nat) (l : Link) : Option Link :=
  match l.phase with
  | .reading =>
    if l.source = [] then
      if l.ended then some { l with phase := .closing [] none } else none
    else if 1 ≤ n ∧ n ≤ size ∧ n ≤ l.source.length then
      some { l with phase := .writing (l.source.take n), source := l.source.drop n }
    else none
  | .writing rest =>
    if l.closed then some { l with phase := .closing rest (some .readerGone) }
    else if 1 ≤ n ∧ n ≤ rest.length then
      some { l with phase := .onward (rest.drop n), sink := l.sink ++ rest.take n }
    else none
  | .closing rest fault =>
    match if rest = [] then none else PipeFault.readerGone.onClose with
    | none => some { l with phase := .leaving fault, sinkOpen := false }
    | some f => some { l with phase := .stopped (some f), sinkOpen := false }
  | .leaving fault =>
    some { l with phase := .stopped (fault.bind PipeFault.onClose), sourceOpen := false }
  | .stopped _ => none

/-- The link after a move, if the move is possible. The end is seen when the pipe is empty and
nobody can write to it any more. -/
def act (size : Nat) (l : Link) : Move → Option Link
  | .write bytes =>
    if l.ended = false ∧ l.sourceOpen = true then
      some { l with written := l.written ++ bytes, source := l.source ++ bytes }
    else none
  | .finish => if l.ended then none else some { l with ended := true }
  | .relay n => l.relay size n
  | .read n =>
    if 1 ≤ n ∧ n ≤ l.sink.length ∧ l.closed = false then
      some { l with received := l.received ++ l.sink.take n, sink := l.sink.drop n }
    else none
  | .seeEnd =>
    if l.sink = [] ∧ l.sinkOpen = false ∧ l.closed = false then some { l with sawEnd := true }
    else none
  | .close => if l.closed then none else some { l with closed := true }

def run (size : Nat) : Link → List Move → Option Link
  | l, [] => some l
  | l, m :: ms => (l.act size m).bind fun l => run size l ms

/-- The bytes on their way to the process after, in their order. What is before a relay that has
closed its output does not get on. -/
def inFlight (l : Link) : List UInt8 :=
  l.sink ++ if l.sinkOpen then l.phase.rest ++ l.source else []

/-- The relay has nothing to do until the process before writes or ends. -/
def Waits (l : Link) : Prop :=
  l.phase = .reading ∧ l.source = [] ∧ l.ended = false

/-- Nothing is lost, doubled or put in another order. -/
structure Sound (l : Link) : Prop where
  sinkOpen : l.sinkOpen = l.phase.holdsSink
  sourceOpen : l.sourceOpen = l.phase.holdsSource
  flow : l.sinkOpen = true → l.received ++ (l.sink ++ (l.phase.rest ++ l.source)) = l.written
  delivered : l.received ++ l.sink <+: l.written
  full : ∀ rest, l.phase = .writing rest → rest ≠ []
  complete : l.phase.isOver = true →
    l.closed = true ∨ l.ended = true ∧ l.received ++ l.sink = l.written
  fault : ∀ f, l.phase.fault? = some f → f = .readerGone
  report : l.phase.report? = none
  sawEnd : l.sawEnd = true → l.ended = true ∧ l.received = l.written

theorem sound_start : start.Sound := by
  constructor <;> simp [start, Phase.holdsSink, Phase.holdsSource, Phase.rest, Phase.isOver,
    Phase.fault?, Phase.report?]

variable {size : Nat} {l l' : Link} {m : Move}

theorem Sound.relay (h : l.Sound) {n : Nat} (hstep : l.relay size n = some l') : l'.Sound := by
  obtain ⟨hsink, hsource, hflow, hdelivered, hfull, hover, hfault, hreport, hsaw⟩ := h
  unfold Link.relay at hstep
  cases hp : l.phase with
  | reading =>
    simp only [hp, Phase.holdsSink, Phase.holdsSource, Phase.rest] at hsink hsource hflow hstep
    split at hstep
    · next hempty =>
      split at hstep
      · next hended =>
        cases hstep
        have hall : l.received ++ l.sink = l.written := by simpa [hempty] using hflow hsink
        exact ⟨hsink, hsource, hflow, hdelivered, nofun, fun _ => .inr ⟨hended, hall⟩, nofun, rfl,
          hsaw⟩
      · cases hstep
    · split at hstep
      · next hn =>
        cases hstep
        refine ⟨hsink, hsource, fun _ => ?_, hdelivered, ?_, nofun, nofun, rfl, hsaw⟩
        · simpa [Phase.rest] using hflow hsink
        · rintro _ ⟨⟩
          simp
          grind
      · cases hstep
  | writing rest =>
    simp only [hp, Phase.holdsSink, Phase.holdsSource, Phase.rest] at hsink hsource hflow hstep
    split at hstep
    · next hclosed =>
      cases hstep
      exact ⟨hsink, hsource, hflow, hdelivered, nofun, fun _ => .inl hclosed,
        fun _ hf => (Option.some.inj hf).symm, rfl, hsaw⟩
    · split at hstep
      · next hn =>
        cases hstep
        have hbytes : l.sink ++ rest.take n ++ (rest.drop n ++ l.source) =
            l.sink ++ (rest ++ l.source) := by
          rw [List.append_assoc, ← List.append_assoc (rest.take n), List.take_append_drop]
        obtain ⟨hsink', hsource', hfault', hreport'⟩ :=
          Phase.of_isOver_eq_false (Phase.isOver_onward (rest.drop n))
        have hflow' := hflow hsink
        rw [← hbytes, ← List.append_assoc] at hflow'
        refine ⟨hsink.trans hsink'.symm, hsource.trans hsource'.symm, fun _ => ?_, ?_,
          fun _ => Phase.ne_nil_of_onward, fun ho => ?_, fun f hf => ?_, hreport', hsaw⟩
        · rw [Phase.rest_onward, ← List.append_assoc]
          exact hflow'
        · exact ⟨_, hflow'⟩
        · rw [Phase.isOver_onward] at ho
          cases ho
        · rw [hfault'] at hf
          cases hf
      · cases hstep
  | closing rest fault =>
    simp only [hp, Phase.holdsSink, Phase.holdsSource, Phase.rest] at hsink hsource hflow hstep
    have hquiet : (if rest = [] then none else PipeFault.readerGone.onClose) = none := by
      split <;> rfl
    rw [hquiet] at hstep
    cases hstep
    have hover' := hover (by rw [hp]; rfl)
    exact ⟨rfl, hsource, nofun, hdelivered, nofun, fun _ => hover',
      fun f hf => hfault f (by rw [hp]; exact hf), rfl, hsaw⟩
  | leaving fault =>
    simp only [hp, Phase.holdsSink, Phase.holdsSource, Phase.rest] at hsink hsource hflow hstep
    cases hstep
    have hover' := hover (by rw [hp]; rfl)
    refine ⟨hsink, rfl, fun ho => ?_, hdelivered, nofun, fun _ => hover', nofun, ?_, hsaw⟩
    · rw [hsink] at ho
      cases ho
    · cases fault with
      | none => rfl
      | some f => rw [hfault f (by rw [hp]; rfl)]; rfl
  | stopped report =>
    rw [hp] at hstep
    cases hstep

theorem Sound.act (h : l.Sound) (hstep : l.act size m = some l') : l'.Sound := by
  cases m with
  | relay n => exact h.relay hstep
  | write bytes =>
    obtain ⟨⟨hended, hopen⟩, hl⟩ := Option.ite_none_right_eq_some.mp hstep
    cases hl
    have hlive : l.ended ≠ true := by simp [hended]
    refine { h with flow := fun ho => ?_, delivered := ?_, complete := fun ho => ?_, sawEnd := ?_ }
    · rw [← h.flow ho]
      simp
    · exact h.delivered.trans (List.prefix_append _ _)
    · exact .inl ((h.complete ho).resolve_right fun hend => hlive hend.1)
    · exact fun hs => (hlive (h.sawEnd hs).1).elim
  | finish =>
    obtain ⟨-, hl⟩ := Option.ite_none_left_eq_some.mp hstep
    cases hl
    exact { h with
      complete := fun ho => (h.complete ho).imp_right fun hend => ⟨rfl, hend.2⟩
      sawEnd := fun hs => ⟨rfl, (h.sawEnd hs).2⟩ }
  | read n =>
    obtain ⟨⟨hn, hle, -⟩, hl⟩ := Option.ite_none_right_eq_some.mp hstep
    cases hl
    have hbytes : l.received ++ l.sink.take n ++ l.sink.drop n = l.received ++ l.sink := by simp
    refine { h with flow := fun ho => ?_, delivered := ?_, complete := fun ho => ?_, sawEnd := ?_ }
    · rw [← h.flow ho, ← List.append_assoc, hbytes, List.append_assoc]
    · exact hbytes ▸ h.delivered
    · exact hbytes ▸ h.complete ho
    · intro hs
      have hlength := h.delivered.length_le
      rw [(h.sawEnd hs).2, List.length_append] at hlength
      omega
  | seeEnd =>
    obtain ⟨⟨hempty, hshut, hopen⟩, hl⟩ := Option.ite_none_right_eq_some.mp hstep
    cases hl
    have hover : l.phase.isOver = true := by
      cases hover : l.phase.isOver with
      | true => rfl
      | false =>
        have hsink := h.sinkOpen
        rw [(Phase.of_isOver_eq_false hover).1, hshut] at hsink
        cases hsink
    refine { h with sawEnd := fun _ => ?_ }
    obtain ⟨hended, hall⟩ := (h.complete hover).resolve_left (by simp [hopen])
    exact ⟨hended, by simpa [hempty] using hall⟩
  | close =>
    obtain ⟨-, hl⟩ := Option.ite_none_left_eq_some.mp hstep
    cases hl
    exact { h with complete := fun _ => .inl rfl }

theorem Sound.run (h : l.Sound) {ms : List Move} (hrun : l.run size ms = some l') : l'.Sound := by
  induction ms generalizing l with
  | nil =>
    cases hrun
    exact h
  | cons m ms ih =>
    obtain ⟨l₁, hstep, hrest⟩ := Option.bind_eq_some_iff.mp hrun
    exact ih (h.act hstep) hrest

/-- What is received and what is on its way are the first bytes that were written. -/
theorem Sound.received_inFlight (h : l.Sound) : l.received ++ l.inFlight <+: l.written := by
  unfold inFlight
  split
  · next hopen => exact ⟨[], by rw [List.append_nil]; exact h.flow hopen⟩
  · simpa using h.delivered

/-- A relay that is not stopped can do something, unless it waits. -/
theorem Sound.can_relay (h : l.Sound) (hsize : 1 ≤ size) :
    l.phase = .stopped none ∨ l.Waits ∨ ∃ n, (l.relay size n).isSome = true := by
  cases hp : l.phase with
  | reading =>
    cases hsource : l.source with
    | nil =>
      cases hended : l.ended with
      | false => exact .inr (.inl ⟨hp, hsource, hended⟩)
      | true => exact .inr (.inr ⟨1, by simp [Link.relay, hp, hsource, hended]⟩)
    | cons b bs => exact .inr (.inr ⟨1, by simp [Link.relay, hp, hsource, hsize]⟩)
  | writing rest =>
    have hlength : 1 ≤ rest.length := List.length_pos_iff.mpr (h.full rest hp)
    cases hclosed : l.closed with
    | true => exact .inr (.inr ⟨1, by simp [Link.relay, hp, hclosed]⟩)
    | false => exact .inr (.inr ⟨1, by simp [Link.relay, hp, hclosed, hlength]⟩)
  | closing rest fault =>
    have hquiet : (if rest = [] then none else PipeFault.readerGone.onClose) = none := by
      split <;> rfl
    exact .inr (.inr ⟨1, by simp only [Link.relay, hp, hquiet, Option.isSome_some]⟩)
  | leaving fault => exact .inr (.inr ⟨1, by simp [Link.relay, hp]⟩)
  | stopped report =>
    have hreport := h.report
    rw [hp] at hreport
    exact .inl (congrArg Phase.stopped hreport)

/-! A relay whose output nobody reads. -/

theorem rank_relay (hclosed : l.closed = true) {n : Nat} (hstep : l.relay size n = some l') :
    l'.closed = true ∧ l'.received = l.received ∧ l'.phase.rank < l.phase.rank := by
  unfold Link.relay at hstep
  cases hp : l.phase with
  | reading =>
    simp only [hp] at hstep
    split at hstep
    · split at hstep <;> cases hstep
      exact ⟨hclosed, rfl, by simp [Phase.rank]⟩
    · split at hstep <;> cases hstep
      exact ⟨hclosed, rfl, by simp [Phase.rank]⟩
  | writing rest =>
    simp only [hp] at hstep
    rw [if_pos hclosed] at hstep
    cases hstep
    exact ⟨hclosed, rfl, by simp [Phase.rank]⟩
  | closing rest fault =>
    simp only [hp] at hstep
    split at hstep <;> cases hstep <;> exact ⟨hclosed, rfl, by simp [Phase.rank]⟩
  | leaving fault =>
    simp only [hp] at hstep
    cases hstep
    exact ⟨hclosed, rfl, by simp [Phase.rank]⟩
  | stopped report =>
    rw [hp] at hstep
    cases hstep

theorem rank_act (hclosed : l.closed = true) (hstep : l.act size m = some l') :
    l'.closed = true ∧ l'.received = l.received ∧
      l'.phase.rank + (if m.isRelay then 1 else 0) ≤ l.phase.rank := by
  cases m with
  | relay n => exact rank_relay hclosed hstep
  | write bytes =>
    obtain ⟨-, hl⟩ := Option.ite_none_right_eq_some.mp hstep
    cases hl
    exact ⟨hclosed, rfl, Nat.le_refl _⟩
  | finish =>
    obtain ⟨-, hl⟩ := Option.ite_none_left_eq_some.mp hstep
    cases hl
    exact ⟨hclosed, rfl, Nat.le_refl _⟩
  | read n =>
    obtain ⟨⟨-, -, hopen⟩, -⟩ := Option.ite_none_right_eq_some.mp hstep
    rw [hclosed] at hopen
    cases hopen
  | seeEnd =>
    obtain ⟨⟨-, -, hopen⟩, -⟩ := Option.ite_none_right_eq_some.mp hstep
    rw [hclosed] at hopen
    cases hopen
  | close =>
    obtain ⟨hopen, -⟩ := Option.ite_none_left_eq_some.mp hstep
    exact (hopen hclosed).elim

/-- From then on the relay does so many steps at most, and nothing more is received. -/
theorem rank_run (hclosed : l.closed = true) {ms : List Move} (hrun : l.run size ms = some l') :
    l'.received = l.received ∧ l'.phase.rank + ms.countP Move.isRelay ≤ l.phase.rank := by
  induction ms generalizing l with
  | nil =>
    cases hrun
    exact ⟨rfl, Nat.le_refl _⟩
  | cons m ms ih =>
    obtain ⟨l₁, hstep, hrest⟩ := Option.bind_eq_some_iff.mp hrun
    obtain ⟨hclosed₁, hreceived₁, hrank₁⟩ := rank_act hclosed hstep
    obtain ⟨hreceived, hrank⟩ := ih hclosed₁ hrest
    refine ⟨hreceived.trans hreceived₁, ?_⟩
    rw [List.countP_cons]
    omega

theorem Phase.rank_le (p : Phase) : p.rank ≤ 4 := by
  cases p <;> simp [Phase.rank]

end Link

end PipelineShell.Relay
