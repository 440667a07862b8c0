import Mathlib.Data.Finset.Card
import PipelineShell.Builtin
import PipelineShell.Proofs.Completion.Folding
import PipelineShell.Proofs.Jobs

/-! The table of builtins as a map by folded names. It is a list in ascending order, but what it
answers is told by the registrations: of those with one folded name the last counts. -/

namespace PipelineShell.Registry

variable {α : Type}

theorem lookup_put (name key : String) (a : α) (es : List (String × α)) :
    (put name a es).lookup key = if key = name then some a else es.lookup key := by
  induction es with
  | nil => exact lookup_cons_ite name key a []
  | cons e es ih =>
    obtain ⟨other, b⟩ := e
    unfold put
    split
    · exact lookup_cons_ite name key a _
    · split
      · next hname =>
        obtain rfl : name = other := hname
        rw [lookup_cons_ite, lookup_cons_ite]
        by_cases h : key = name <;> simp [h]
      · next hname =>
        have hne : name ≠ other := hname
        rw [lookup_cons_ite, lookup_cons_ite, ih]
        by_cases h : key = other
        · simp [h, hne.symm]
        · simp [h]

theorem mem_put {name : String} {a : α} {es : List (String × α)} {e : String × α}
    (h : e ∈ put name a es) : e = (name, a) ∨ e ∈ es := by
  induction es with
  | nil => exact .inl (List.mem_singleton.mp h)
  | cons d es ih =>
    unfold put at h
    split at h
    · exact List.mem_cons.mp h
    · split at h
      · exact (List.mem_cons.mp h).imp_right (List.mem_cons_of_mem d)
      · rcases List.mem_cons.mp h with rfl | h
        · exact .inr List.mem_cons_self
        · exact (ih h).imp_right (List.mem_cons_of_mem d)

theorem pairwise_put {name : String} {a : α} {es : List (String × α)}
    (h : es.Pairwise fun d e => d.1 < e.1) : (put name a es).Pairwise fun d e => d.1 < e.1 := by
  induction es with
  | nil => exact List.pairwise_singleton _ _
  | cons d es ih =>
    obtain ⟨hd, hes⟩ := List.pairwise_cons.mp h
    unfold put
    split
    · next hlt =>
      refine List.pairwise_cons.mpr ⟨fun e he => ?_, h⟩
      rcases List.mem_cons.mp he with rfl | he
      · exact hlt
      · exact lt_trans hlt (hd e he)
    · next hlt =>
      split
      · next hname => exact List.pairwise_cons.mpr ⟨fun e he => hname ▸ hd e he, hes⟩
      · next hname =>
        refine List.pairwise_cons.mpr ⟨fun e he => ?_, ih hes⟩
        rcases mem_put he with rfl | he
        · exact lt_of_le_of_ne (not_lt.mp hlt) (Ne.symm hname)
        · exact hd e he

/-- The registrations that are not refused. -/
def accepted (calls : List (String × α)) : List (String × α) :=
  calls.filter fun e => !Text.blank e.1

/-- The last registration that counts for a folded name. -/
def latest? (calls : List (String × α)) (key : String) : Option (String × α) :=
  (accepted calls).reverse.find? fun e => Text.fold e.1 == key

theorem latest?_concat (calls : List (String × α)) (e : String × α) (key : String) :
    latest? (calls ++ [e]) key = if Text.blank e.1 then latest? calls key
      else if key = Text.fold e.1 then some e else latest? calls key := by
  have haccepted : accepted (calls ++ [e]) = accepted calls ++ accepted [e] := List.filter_append ..
  rw [latest?, haccepted, List.reverse_append]
  by_cases hblank : Text.blank e.1 = true
  · simp [accepted, latest?, hblank]
  · by_cases hkey : key = Text.fold e.1
    · simp [accepted, hblank, hkey]
    · simp [accepted, latest?, hblank, hkey, Ne.symm hkey]

theorem registerAll_concat (r : Registry α) (calls : List (String × α)) (e : String × α) :
    r.registerAll (calls ++ [e]) = if Text.blank e.1 then r.registerAll calls
      else ⟨put (Text.fold e.1) e.2 (r.registerAll calls).entries⟩ := by
  rw [registerAll, List.foldl_concat, ← registerAll, register]
  by_cases hblank : Text.blank e.1 = true <;> simp [hblank]

/-- The entries are in order, and each stands for the last registration of its name. -/
structure Holds (r : Registry α) (calls : List (String × α)) : Prop where
  ascending : r.entries.Pairwise fun d e => d.1 < e.1
  lookup : ∀ key, r.entries.lookup key = (latest? calls key).map (·.2)

theorem Holds.concat {r : Registry α} {calls : List (String × α)} (h : r.Holds calls)
    (e : String × α) : (if Text.blank e.1 then r
      else ⟨put (Text.fold e.1) e.2 r.entries⟩).Holds (calls ++ [e]) := by
  by_cases hblank : Text.blank e.1 = true
  · rw [if_pos hblank]
    exact ⟨h.ascending, fun key => by rw [latest?_concat, if_pos hblank, h.lookup]⟩
  · rw [if_neg hblank]
    refine ⟨pairwise_put h.ascending, fun key => ?_⟩
    rw [latest?_concat, if_neg hblank, lookup_put, h.lookup]
    split <;> rfl

theorem holds_registerAll (calls : List (String × α)) :
    (empty.registerAll calls).Holds calls := by
  induction calls using List.reverseRecOn with
  | nil => exact ⟨.nil, fun _ => rfl⟩
  | append_singleton calls e ih => exact registerAll_concat empty calls e ▸ ih.concat e

theorem isSome_latest?_iff {calls : List (String × α)} {key : String} :
    (latest? calls key).isSome = true ↔ ∃ e ∈ accepted calls, Text.fold e.1 = key := by
  simp [latest?, List.find?_isSome]

theorem exists_of_latest? {calls : List (String × α)} {key : String} {e : String × α}
    (h : latest? calls key = some e) : ∃ before later, accepted calls = before ++ e :: later ∧
      Text.fold e.1 = key ∧ ∀ d ∈ later, Text.fold d.1 ≠ key := by
  obtain ⟨hkey, later, before, hsplit, hlater⟩ := List.find?_eq_some_iff_append.mp h
  refine ⟨before.reverse, later.reverse, ?_, eq_of_beq hkey, fun d hd => ?_⟩
  · rw [← List.reverse_reverse (accepted calls), hsplit]
    simp
  · simpa using hlater d (List.mem_reverse.mp hd)

theorem mem_names_iff (r : Registry α) (key : String) :
    key ∈ r.names ↔ (r.entries.lookup key).isSome = true := by
  rw [List.lookup_isSome_iff, names, List.mem_map]
  simp only [beq_iff_eq, eq_comm (a := key)]

namespace Holds

variable {r : Registry α} {calls : List (String × α)} (h : r.Holds calls)

include h

theorem get?_eq (name : String) : r.get? name = (latest? calls (Text.fold name)).map (·.2) :=
  h.lookup (Text.fold name)

theorem mem_names (w : String) : w ∈ r.names ↔ ∃ e ∈ accepted calls, Text.fold e.1 = w := by
  rw [mem_names_iff, h.lookup, Option.isSome_map, isSome_latest?_iff]

theorem isBuiltin_iff (name : String) :
    r.isBuiltin name = true ↔ ∃ e ∈ accepted calls, Text.fold e.1 = Text.fold name := by
  rw [isBuiltin, h.get?_eq, Option.isSome_map, ← isSome_latest?_iff, Bool.and_eq_true]
  -- The empty name is not looked up at all; no accepted name is folded to it.
  refine and_iff_right_of_imp fun hsome => ?_
  obtain ⟨e, he, hfold⟩ := isSome_latest?_iff.mp hsome
  have hne : name ≠ "" := by
    rintro rfl
    have hempty : e.1 = "" := Text.fold_eq_empty_iff.mp hfold
    have hblank := (List.mem_filter.mp he).2
    rw [hempty] at hblank
    cases hblank
  simpa using hne

theorem resolve_latest {name : String} (hb : r.isBuiltin name = true) :
    ∃ before e later, accepted calls = before ++ e :: later ∧ Text.fold e.1 = Text.fold name ∧
      (∀ d ∈ later, Text.fold d.1 ≠ Text.fold name) ∧ r.resolve name = .ok e.2 := by
  have hsome := isSome_latest?_iff.mpr ((h.isBuiltin_iff name).mp hb)
  obtain ⟨e, he⟩ := Option.isSome_iff_exists.mp hsome
  obtain ⟨before, later, hsplit, hfold, hlater⟩ := exists_of_latest? he
  refine ⟨before, e, later, hsplit, hfold, hlater, ?_⟩
  rw [resolve, h.get?_eq, he]
  rfl

theorem resolve_unknown {name : String} (hb : r.isBuiltin name = false) :
    r.resolve name = .error (.unknown name) := by
  have hnone : latest? calls (Text.fold name) = none := by
    rw [← Option.isNone_iff_eq_none, ← Option.isSome_eq_false_iff, Bool.eq_false_iff, Ne,
      isSome_latest?_iff, ← h.isBuiltin_iff, hb]
    exact Bool.false_ne_true
  rw [resolve, h.get?_eq, hnone]
  rfl

theorem resolve_ok_iff (name : String) :
    (∃ a, r.resolve name = .ok a) ↔ r.isBuiltin name = true := by
  refine ⟨fun ⟨a, ha⟩ => ?_, Job.resolve_of_isBuiltin⟩
  cases hb : r.isBuiltin name with
  | true => rfl
  | false =>
    rw [h.resolve_unknown hb] at ha
    cases ha

theorem pairwise_names : r.names.Pairwise (· < ·) :=
  List.pairwise_map.mpr h.ascending

theorem size_eq : r.size = ((accepted calls).map fun e => Text.fold e.1).toFinset.card := by
  have hnames : r.names.toFinset = ((accepted calls).map fun e => Text.fold e.1).toFinset := by
    ext w
    rw [List.mem_toFinset, h.mem_names, List.mem_toFinset, List.mem_map]
  rw [← hnames, List.toFinset_card_of_nodup (h.pairwise_names.imp ne_of_lt), names,
    List.length_map, size]

end Holds

theorem runStage_of_isBuiltin {τ : Type} {e : Engine τ} {c : Command} {last : Bool} {j : Job τ}
    (hb : j.shell.registry.isBuiltin c.name = true) :
    ∃ tag, j.shell.registry.resolve c.name = .ok tag ∧
      Job.runStage e c last j = Job.runBuiltin e tag c last j := by
  obtain ⟨tag, htag⟩ := Job.resolve_of_isBuiltin hb
  have hname : c.name.isEmpty = false := by
    cases hempty : c.name.isEmpty with
    | false => rfl
    | true => simp [isBuiltin, hempty] at hb
  exact ⟨tag, htag, Job.runStage_of_resolve hname hb htag⟩

/-- A table answers as the map does that the registrations make up in their order. -/
structure Answers {τ : Type} (r : Registry τ) (calls : List (String × τ)) : Prop where
  /-- A blank name is refused, and the table stays as it is. -/
  refused : ∀ name a, Text.blank name = true → r.register name a = .error .emptyName ∧
    Registry.empty.registerAll (calls ++ [(name, a)]) = r
  taken : ∀ name a, Text.blank name = false →
    r.register name a = .ok (Registry.empty.registerAll (calls ++ [(name, a)]))
  isBuiltin_iff : ∀ name,
    r.isBuiltin name = true ↔ ∃ e ∈ accepted calls, Text.fold e.1 = Text.fold name
  contains_eq : ∀ name, r.contains name = r.isBuiltin name
  resolve_iff : ∀ name, (∃ a, r.resolve name = .ok a) ↔ r.isBuiltin name = true
  /-- The meaning is that of the last registration of the name, whatever its case. -/
  latest : ∀ name, r.isBuiltin name = true → ∃ before e later,
    accepted calls = before ++ e :: later ∧ Text.fold e.1 = Text.fold name ∧
    (∀ d ∈ later, Text.fold d.1 ≠ Text.fold name) ∧ r.resolve name = .ok e.2
  unknown : ∀ name, r.isBuiltin name = false → r.resolve name = .error (.unknown name)
  ascending : r.names.Pairwise fun v w => v.toList < w.toList
  mem_names : ∀ w, w ∈ r.names ↔ ∃ e ∈ accepted calls, Text.fold e.1 = w
  size : r.size = r.names.length ∧
    r.size = ((accepted calls).map fun e => Text.fold e.1).toFinset.card
  /-- A stage that is told to be a builtin is the call of one: its name is not looked up in vain. -/
  called : ∀ (e : Engine τ) (c : Command) (last : Bool) (j : Job τ), j.shell.registry = r →
    r.isBuiltin c.name = true → ∃ tag, r.resolve c.name = .ok tag ∧
      Job.runStage e c last j = Job.runBuiltin e tag c last j

/-- Whatever was registered, the table is the map from folded names to what they were given last. -/
theorem answers_registerAll {τ : Type} (calls : List (String × τ)) :
    (Registry.empty.registerAll calls).Answers calls := by
  have h := holds_registerAll calls
  refine ⟨fun name a hb => ⟨if_pos hb, ?_⟩, fun name a hb => ?_, h.isBuiltin_iff, fun _ => rfl,
    h.resolve_ok_iff, fun _ => h.resolve_latest, fun _ => h.resolve_unknown,
    h.pairwise_names.imp String.lt_iff_toList_lt.mp, h.mem_names, ⟨?_, h.size_eq⟩,
    fun e c last j hj hb => ?_⟩
  · rw [registerAll_concat, if_pos hb]
  · rw [registerAll_concat, register, if_neg (by simp [hb]), if_neg (by simp [hb])]
  · rw [names, List.length_map, Registry.size]
  · rw [← hj] at hb ⊢
    exact runStage_of_isBuiltin hb

example : (empty.registerAll [("Echo", 1), ("\t", 2), ("ECHO", 3)]).entries = [("echo", 3)] := by
  decide +kernel

end PipelineShell.Registry
