import PipelineShell.Proofs.Lexing.Stages

/-! Taking the operators out of the words of a segment. The words fall into parts, in one way: plain
words, and operators each with the word behind it. What is collected is read off the parts, stream
by stream, and so are the words of two segments that are read as one. -/

namespace PipelineShell

/-- A part of the words of a segment. The operator of a pair takes the word behind it, whatever that
is; a loose one has nothing behind it. -/
inductive Part
  | plain (w : Word) (h : w.operator? = none)
  | pair (op target : Word) (s : Stream) (append : Bool) (h : op.operator? = some (s, append))
  | loose (op : Word) (h : op.operator?.isSome = true)

namespace Part

def source : Part → List Word
  | plain w _ => [w]
  | pair op target .. => [op, target]
  | loose op _ => [op]

def word? : Part → Option Word
  | plain w _ => some w
  | _ => none

/-- Where the pair sends the stream, if it is a pair for it. -/
def destination? (s : Stream) : Part → Option Destination
  | pair _ target stream append _ => if stream = s then some ⟨some target.text, append⟩ else none
  | _ => none

def isLoose : Part → Bool
  | loose .. => true
  | _ => false

end Part

namespace Parts

def source (ps : List Part) : List Word :=
  ps.flatMap Part.source

def words (ps : List Part) : List Word :=
  ps.filterMap Part.word?

/-- Where the last of the pairs for the stream sends it. -/
def last? (s : Stream) (ps : List Part) : Option Destination :=
  (ps.filterMap (Part.destination? s)).getLast?

variable {ps : List Part}

theorem words_sublist (ps : List Part) : (words ps).Sublist (source ps) := by
  induction ps with
  | nil => exact .slnil
  | cons p ps ih =>
    cases p with
    | plain w h => exact ih.cons_cons w
    | pair op target s append h => exact (ih.cons target).cons op
    | loose op h => exact ih.cons op

theorem operator?_of_mem {w : Word} (h : w ∈ words ps) : w.operator? = none := by
  obtain ⟨p, -, hp⟩ := List.mem_filterMap.mp h
  cases p with
  | plain v hv =>
    cases hp
    exact hv
  | pair | loose => cases hp

theorem isSome_target_of_last? {s : Stream} {d : Destination} (h : last? s ps = some d) :
    d.target.isSome = true := by
  obtain ⟨p, -, hp⟩ := List.mem_filterMap.mp (List.mem_of_getLast? h)
  cases p with
  | pair op target stream append hop =>
    obtain ⟨-, hd⟩ := Option.ite_none_right_eq_some.mp hp
    cases hd
    rfl
  | plain | loose => cases hp

end Parts

/-- An operator is loose at the end and nowhere else. -/
def IsReading (ps : List Part) : Prop :=
  ∀ before p after, ps = before ++ p :: after → p.isLoose = true → after = []

namespace IsReading

variable {p : Part} {ps qs : List Part}

theorem nil : IsReading [] := by
  simp [IsReading]

theorem tail (h : IsReading (p :: ps)) : IsReading ps := by
  rintro before q after rfl
  exact h (p :: before) q after rfl

theorem head (h : IsReading (p :: ps)) : p.isLoose = true → ps = [] :=
  h [] p ps rfl

theorem cons (h : IsReading ps) (hp : p.isLoose = true → ps = []) : IsReading (p :: ps) := by
  rintro before q after hsplit hq
  cases before with
  | nil =>
    obtain ⟨rfl, rfl⟩ := List.cons.inj hsplit
    exact hp hq
  | cons b before => exact h before q after (List.cons.inj hsplit).2 hq

theorem source_append_inj {p q : Part} {r r' : List Word} (hp : p.isLoose = true → r = [])
    (hq : q.isLoose = true → r' = []) (h : p.source ++ r = q.source ++ r') : p = q ∧ r = r' := by
  have hfirst : p.source.head? = q.source.head? := by
    have hh := congrArg List.head? h
    cases p <;> cases q <;> exact hh
  cases p with
  | plain w hw =>
    cases q with
    | plain v hv =>
      obtain ⟨rfl, rfl⟩ := List.cons.inj h
      exact ⟨rfl, rfl⟩
    | pair op target s append hop =>
      cases Option.some.inj hfirst
      rw [hw] at hop
      cases hop
    | loose op hop =>
      cases Option.some.inj hfirst
      rw [hw] at hop
      cases hop
  | pair op target s append hop =>
    cases q with
    | plain v hv =>
      cases Option.some.inj hfirst
      rw [hv] at hop
      cases hop
    | pair op' target' s' append' hop' =>
      obtain ⟨rfl, htail⟩ := List.cons.inj h
      obtain ⟨rfl, rfl⟩ := List.cons.inj htail
      rw [hop] at hop'
      cases hop'
      exact ⟨rfl, rfl⟩
    | loose op' hop' =>
      have htail : target :: r = r' := (List.cons.inj h).2
      rw [hq rfl] at htail
      cases htail
  | loose op hop =>
    cases q with
    | plain v hv =>
      cases Option.some.inj hfirst
      rw [hv] at hop
      cases hop
    | pair op' target' s' append' hop' =>
      have htail : r = target' :: r' := (List.cons.inj h).2
      rw [hp rfl] at htail
      cases htail
    | loose op' hop' =>
      obtain ⟨rfl, rfl⟩ := List.cons.inj h
      exact ⟨rfl, rfl⟩

theorem eq_of_source_eq (hps : IsReading ps) (hqs : IsReading qs)
    (h : Parts.source ps = Parts.source qs) : ps = qs := by
  have hne : ∀ (p : Part) (l : List Word), p.source ++ l ≠ [] := by
    intro p l
    cases p <;> nofun
  have hnone : ∀ {p : Part} {l : List Part}, (p.isLoose = true → l = []) →
      p.isLoose = true → Parts.source l = [] := by
    intro p l hl hp
    rw [hl hp]
    rfl
  induction ps generalizing qs with
  | nil =>
    cases qs with
    | nil => rfl
    | cons q qs => exact absurd h.symm (hne q _)
  | cons p ps ih =>
    cases qs with
    | nil => exact absurd h (hne p _)
    | cons q qs =>
      obtain ⟨rfl, hrest⟩ := source_append_inj (hnone hps.head) (hnone hqs.head) h
      rw [ih hps.tail hqs.tail hrest]

theorem exists_source_eq (ws : List Word) : ∃ ps, IsReading ps ∧ Parts.source ps = ws := by
  -- The recursion is that of `collect`, which takes an operator together with its target.
  generalize Redirection.none = r
  induction ws, r using Redirection.collect.induct with
  | case1 r => exact ⟨[], nil, rfl⟩
  | case2 w ws r hw ih =>
    obtain ⟨ps, hps, rfl⟩ := ih
    exact ⟨.plain w hw :: ps, hps.cons nofun, rfl⟩
  | case3 w r s append hw =>
    exact ⟨[.loose w (by rw [hw]; rfl)], nil.cons fun _ => rfl, rfl⟩
  | case4 w r s append hw t rest ih =>
    obtain ⟨ps, hps, rfl⟩ := ih
    exact ⟨.pair w t s append hw :: ps, hps.cons nofun, rfl⟩

end IsReading

theorem Word.operator?_eq_none_iff (w : Word) :
    w.operator? = none ↔ w.quoted = true ∨ w.text ∉ [">", "1>", ">>", "1>>", "2>", "2>>"] := by
  cases hq : w.quoted with
  | true => simp [operator?, hq]
  | false =>
    simp only [operator?, hq, operatorOf]
    grind

namespace Redirection

variable {s : Stream}

theorem get_set (r : Redirection) (s t : Stream) (d : Destination) :
    (r.set s d).get t = if s = t then d else r.get t := by
  cases s <;> cases t <;> rfl

theorem ext_get {r r' : Redirection} (h : ∀ s, r.get s = r'.get s) : r = r' := by
  obtain ⟨out, err⟩ := r
  obtain ⟨out', err'⟩ := r'
  obtain rfl : out = out' := h .stdout
  obtain rfl : err = err' := h .stderr
  rfl

/-- The streams that are redirected later go where they are sent then, with the flag that comes with
it. -/
def override (r r' : Redirection) : Redirection :=
  ⟨if r'.stdout.target.isSome then r'.stdout else r.stdout,
    if r'.stderr.target.isSome then r'.stderr else r.stderr⟩

theorem get_override (r r' : Redirection) (s : Stream) : (r.override r').get s =
    if (r'.get s).target.isSome then r'.get s else r.get s := by
  cases s <;> rfl

theorem collect_plain {w : Word} (hw : w.operator? = Option.none) (ws : List Word)
    (r : Redirection) : collect (w :: ws) r = (w.text :: (collect ws r).1, (collect ws r).2) := by
  rw [collect, hw]

theorem collect_pair {w : Word} {append : Bool} (hw : w.operator? = some (s, append)) (t : Word)
    (ws : List Word) (r : Redirection) :
    collect (w :: t :: ws) r = collect ws (r.set s ⟨some t.text, append⟩) := by
  rw [collect, hw]

theorem collect_loose {w : Word} (hw : w.operator?.isSome = true) (r : Redirection) :
    collect [w] r = ([], r) := by
  obtain ⟨⟨s, append⟩, hw⟩ := Option.isSome_iff_exists.mp hw
  rw [collect, hw]

theorem collect_source_append {ps : List Part} (h : IsReading ps) (vs : List Word)
    (hvs : ∀ p ∈ ps, p.isLoose = true → vs = []) (r : Redirection) :
    ∃ r', (∀ s, r'.get s = (Parts.last? s ps).getD (r.get s)) ∧
      collect (Parts.source ps ++ vs) r =
        ((Parts.words ps).map (·.text) ++ (collect vs r').1, (collect vs r').2) := by
  induction ps generalizing r with
  | nil => exact ⟨r, fun _ => rfl, rfl⟩
  | cons p ps ih =>
    obtain ⟨hp, hps⟩ := List.forall_mem_cons.mp hvs
    cases p with
    | plain w hw =>
      obtain ⟨r', hr', hcollect⟩ := ih h.tail hps r
      have hw' := collect_plain hw (Parts.source ps ++ vs) r
      rw [hcollect] at hw'
      exact ⟨r', hr', hw'⟩
    | pair op target stream append hop =>
      obtain ⟨r', hr', hcollect⟩ := ih h.tail hps (r.set stream ⟨some target.text, append⟩)
      refine ⟨r', fun s => ?_, (collect_pair hop target _ r).trans hcollect⟩
      rw [hr', get_set]
      by_cases hs : stream = s <;>
        simp [Parts.last?, Part.destination?, hs, List.getLast?_cons]
    | loose op hop =>
      obtain rfl := h.head rfl
      obtain rfl := hp rfl
      exact ⟨r, fun _ => rfl, collect_loose hop r⟩

theorem collect_source {ps : List Part} (h : IsReading ps) (r : Redirection) :
    (collect (Parts.source ps) r).1 = (Parts.words ps).map (·.text) ∧
      ∀ s, (collect (Parts.source ps) r).2.get s = (Parts.last? s ps).getD (r.get s) := by
  obtain ⟨r', hr', hcollect⟩ := collect_source_append h [] (fun _ _ _ => rfl) r
  rw [List.append_nil] at hcollect
  rw [hcollect]
  exact ⟨List.append_nil _, hr'⟩

theorem collect_eq_override (ws : List Word) (r : Redirection) :
    collect ws r = ((collect ws none).1, r.override (collect ws none).2) := by
  obtain ⟨ps, hps, rfl⟩ := IsReading.exists_source_eq ws
  obtain ⟨hwords, hlast⟩ := collect_source hps r
  obtain ⟨hwords', hlast'⟩ := collect_source hps none
  refine Prod.ext (hwords.trans hwords'.symm) (ext_get fun s => ?_)
  dsimp only
  rw [get_override, hlast, hlast']
  cases hs : Parts.last? s ps with
  | none => cases s <;> rfl
  | some d => rw [Option.getD_some, Option.getD_some, if_pos (Parts.isSome_target_of_last? hs)]

end Redirection

/-- The words of a segment are read as plain words and pairs, with a loose operator at the end or
without one, in exactly one way. What is collected are the plain words, none of which is an
operator, and for each stream where its own last pair sends it. Other words behind them add their
words, and override their redirection stream by stream, unless they end in a loose operator. -/
theorem collect_partition (ws : List Word) :
    ∃ ps, (∀ qs, IsReading qs ∧ Parts.source qs = ws ↔ qs = ps) ∧
      (Redirection.collect ws .none).1 = (Parts.words ps).map (·.text) ∧
      (Parts.words ps).Sublist ws ∧
      (∀ w ∈ Parts.words ps,
        w.quoted = true ∨ w.text ∉ [">", "1>", ">>", "1>>", "2>", "2>>"]) ∧
      (∀ s, (Redirection.collect ws .none).2.get s = (Parts.last? s ps).getD ⟨none, false⟩) ∧
      (∀ s, ((Redirection.collect ws .none).2.get s).append = true →
        ((Redirection.collect ws .none).2.get s).target.isSome = true) ∧
      ((∀ p ∈ ps, p.isLoose = false) → ∀ vs, Redirection.collect (ws ++ vs) .none =
        ((Redirection.collect ws .none).1 ++ (Redirection.collect vs .none).1,
          (Redirection.collect ws .none).2.override (Redirection.collect vs .none).2)) := by
  obtain ⟨ps, hps, rfl⟩ := IsReading.exists_source_eq ws
  obtain ⟨hwords, hlast⟩ := Redirection.collect_source hps .none
  have hnone : ∀ s, Redirection.none.get s = ⟨none, false⟩ := fun s => by cases s <;> rfl
  refine ⟨ps, fun qs => ⟨fun h => h.1.eq_of_source_eq hps h.2, ?_⟩, hwords,
    Parts.words_sublist ps, fun w hw => w.operator?_eq_none_iff.mp (Parts.operator?_of_mem hw),
    fun s => by rw [hlast, hnone], fun s => ?_, fun hloose vs => ?_⟩
  · rintro rfl
    exact ⟨hps, rfl⟩
  · rw [hlast, hnone]
    cases hs : Parts.last? s ps with
    | none => exact fun h => absurd h (by decide)
    | some d => exact fun _ => Parts.isSome_target_of_last? hs
  · have hvs : ∀ p ∈ ps, p.isLoose = true → vs = [] := fun p hp h => by simp [hloose p hp] at h
    obtain ⟨r', hr', hcollect⟩ := Redirection.collect_source_append hps vs hvs .none
    obtain rfl : r' = (Redirection.collect (Parts.source ps) .none).2 :=
      Redirection.ext_get fun s => (hr' s).trans (hlast s).symm
    rw [hcollect, hwords, Redirection.collect_eq_override vs]

/-- An operator takes another one, or a quoted word, as its target. -/
example : Redirection.collect
    [⟨"ls", false⟩, ⟨">", false⟩, ⟨"2>", false⟩, ⟨"2>>", true⟩, ⟨">>", false⟩, ⟨"log", true⟩,
      ⟨"2>", false⟩] .none = (["ls", "2>>"], ⟨⟨some "log", true⟩, ⟨none, false⟩⟩) := by
  decide

end PipelineShell
