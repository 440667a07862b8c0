import Mathlib.Data.List.DropRight
import PipelineShell.History

/-! Histories after any number of calls. What is kept are the last entries of the list of all that
were ever added, numbered from one. -/

namespace PipelineShell.History

inductive Change
  | add (p : Option Pipeline)
  | clear
deriving DecidableEq

namespace Change

def added? : Change → Option Pipeline
  | add p => p
  | clear => none

def clears : Change → Bool
  | add _ => false
  | clear => true

end Change

def change (h : History) : Change → History
  | .add p => h.addIf p
  | .clear => h.clear

def after (limit : Int) (cs : List Change) : History :=
  cs.foldl change (empty limit)

def added (cs : List Change) : List Pipeline :=
  cs.filterMap Change.added?

def sinceClear (cs : List Change) : List Change :=
  cs.rtakeWhile (!·.clears)

def room (limit : Int) (count : Nat) : Nat :=
  if limit = 0 then count else if 0 < limit then min limit.toNat count else 0

def numbered (ps : List Pipeline) : List (Nat × Pipeline) :=
  (List.range' 1 ps.length).zip ps

theorem room_le (limit : Int) (count : Nat) : room limit count ≤ count := by
  unfold room
  split
  · exact Nat.le_refl _
  · split <;> omega

theorem room_room_succ (limit : Int) (count : Nat) :
    room limit (room limit count + 1) = room limit (count + 1) := by
  unfold room
  split
  · rfl
  · split <;> omega

theorem trim_eq (limit : Int) (l : List (Nat × Pipeline)) :
    trim limit l = l.drop (l.length - room limit l.length) := by
  unfold trim room
  split
  · rw [Nat.sub_self, List.drop_zero]
  · congr 1
    split <;> omega

@[simp] theorem length_numbered (ps : List Pipeline) : (numbered ps).length = ps.length := by
  simp [numbered]

theorem numbered_concat (ps : List Pipeline) (p : Pipeline) :
    numbered (ps ++ [p]) = numbered ps ++ [(ps.length + 1, p)] := by
  have hrange : List.range' 1 (ps ++ [p]).length = List.range' 1 ps.length ++ [ps.length + 1] := by
    rw [List.length_append, List.length_singleton, List.range'_1_concat, Nat.add_comm 1]
  rw [numbered, hrange, List.zip_append (List.length_range' ..)]
  rfl

theorem drop_numbered (ps : List Pipeline) (k : Nat) : (numbered ps).drop k =
    (List.range' (k + 1) (ps.length - k)).zip (ps.drop k) := by
  rw [numbered, List.zip, List.drop_zipWith, List.drop_range', Nat.mul_one, Nat.add_comm 1]

/-- The history keeps the last entries of what was added, as many as there is room for among those
that might be kept. -/
structure Records (h : History) (limit : Int) (ps : List Pipeline) (count : Nat) : Prop where
  bounded : h.limit = limit
  next : h.next = ps.length + 1
  kept : h.kept = (numbered ps).drop (ps.length - room limit count)
  le : count ≤ ps.length

namespace Records

variable {h : History} {limit : Int} {ps : List Pipeline} {count : Nat}

theorem empty (limit : Int) : Records (empty limit) limit [] 0 :=
  ⟨rfl, rfl, by simp [History.empty, numbered], Nat.le_refl 0⟩

theorem length_kept (hr : Records h limit ps count) : h.kept.length = room limit count := by
  have hroom := room_le limit count
  have hle := hr.le
  rw [hr.kept, List.length_drop, length_numbered]
  omega

theorem add (hr : Records h limit ps count) (p : Pipeline) :
    Records (h.add p) limit (ps ++ [p]) (count + 1) where
  bounded := hr.bounded
  next := by simp [History.add, hr.next]
  kept := by
    have hroom := room_le limit count
    have hmore := room_le limit (room limit count + 1)
    have hle := hr.le
    have hfirst : ps.length - room limit count ≤ (numbered ps).length := by
      rw [length_numbered]
      omega
    have hall : h.kept ++ [(h.next, p)] =
        (numbered (ps ++ [p])).drop (ps.length - room limit count) := by
      rw [hr.kept, hr.next, numbered_concat, List.drop_append_of_le_length hfirst]
    have hlength : (h.kept ++ [(h.next, p)]).length = room limit count + 1 := by
      rw [List.length_append, hr.length_kept, List.length_singleton]
    rw [History.add, hr.bounded]
    dsimp only
    rw [trim_eq, hlength, hall, List.drop_drop, room_room_succ, List.length_append,
      List.length_singleton]
    rw [room_room_succ] at hmore
    congr 1
    omega
  le := by
    rw [List.length_append, List.length_singleton]
    exact Nat.succ_le_succ hr.le

theorem clear (hr : Records h limit ps count) : Records h.clear limit ps 0 where
  bounded := hr.bounded
  next := hr.next
  kept := by
    have hnone : room limit 0 = 0 := Nat.le_zero.mp (room_le limit 0)
    rw [hnone, Nat.sub_zero, List.drop_of_length_le (by simp)]
    rfl
  le := Nat.zero_le _

end Records

theorem added_concat (cs : List Change) (c : Change) :
    added (cs ++ [c]) = added cs ++ c.added?.toList := by
  rw [added, List.filterMap_append]
  cases h : c.added? <;> simp [h, added]

theorem sinceClear_concat (cs : List Change) (c : Change) :
    sinceClear (cs ++ [c]) = if c.clears then [] else sinceClear cs ++ [c] := by
  rw [sinceClear, List.rtakeWhile_concat]
  cases c <;> rfl

theorem records_after (limit : Int) (cs : List Change) :
    Records (after limit cs) limit (added cs) (added (sinceClear cs)).length := by
  induction cs using List.reverseRecOn with
  | nil => exact .empty limit
  | append_singleton cs c ih =>
    have hafter : after limit (cs ++ [c]) = (after limit cs).change c := by simp [after]
    rw [hafter, added_concat, sinceClear_concat]
    cases c with
    | clear => simpa [change, Change.added?, Change.clears, added] using ih.clear
    | add p =>
      simp only [Change.clears, Bool.false_eq_true, if_false, added_concat, Change.added?]
      cases p with
      | none => simpa [change, addIf] using ih
      | some p => simpa [change, addIf] using ih.add p

theorem Records.entries {h : History} {limit : Int} {ps : List Pipeline} {count : Nat}
    (hr : Records h limit ps count) (j : Int) : h.entries j =
      let shown := if 0 < j then min j.toNat (room limit count) else room limit count
      (List.range' (ps.length - shown + 1) shown).zip
        ((ps.drop (ps.length - shown)).map Pipeline.render) := by
  have hroom := room_le limit count
  have hle := hr.le
  have hchosen : (if 0 < j then h.kept.drop (h.kept.length - j.toNat) else h.kept) =
      (numbered ps).drop (ps.length - if 0 < j then min j.toNat (room limit count) else
        room limit count) := by
    rw [hr.length_kept, hr.kept]
    split
    · rw [List.drop_drop]
      congr 1
      omega
    · rfl
  rw [History.entries]
  dsimp only
  generalize hshown : (if 0 < j then min j.toNat (room limit count) else room limit count) =
    shown at hchosen ⊢
  have hmost : shown ≤ ps.length := by
    rw [← hshown]
    split <;> omega
  rw [hchosen, drop_numbered, Nat.sub_sub_self hmost, List.zip_map_right]
  rfl

end PipelineShell.History
