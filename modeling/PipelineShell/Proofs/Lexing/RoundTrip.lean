import Mathlib.Data.List.Forall2
import PipelineShell.Pipeline.Printer
import PipelineShell.Proofs.Lexing.Stages

/-! Writing a pipeline and reading it again. The words of a stage come back one by one, the stages
come back segment by segment, and what is lost is exactly what the written form has no place for. -/

namespace PipelineShell

def Destination.normal (d : Destination) : Destination :=
  ⟨d.target, d.target.isSome && d.append⟩

def Redirection.normal (r : Redirection) : Redirection :=
  ⟨r.stdout.normal, r.stderr.normal⟩

def Command.normal (c : Command) : Command :=
  ⟨c.name, if c.isEmpty then [] else c.args, c.redirection.normal⟩

def Pipeline.normal (p : Pipeline) : Pipeline :=
  ⟨p.first.normal, p.rest.map Command.normal⟩

/-- A text as the word that it is read as when it was quoted. -/
def Word.ofText (s : String) : Word := ⟨s, !isBareText s⟩

def Destination.tokens (d : Destination) (truncating appending : String) : List Word :=
  match d.target with
  | some t => [⟨if d.append then appending else truncating, false⟩, .ofText t]
  | none => []

def Redirection.tokens (r : Redirection) : List Word :=
  r.stdout.tokens ">" ">>" ++ r.stderr.tokens "2>" "2>>"

def Command.tokens (c : Command) : List Word :=
  (if c.isEmpty then [] else c.name :: c.args).map .ofText ++ c.redirection.tokens

/-- A written text that is read as one word and that no bar cuts. -/
structure Writes (x : String) (w : Word) : Prop where
  reads : ReadsAs x.toList w
  whole : ScanMode.Whole x.toList

theorem writes_quote (s : String) : Writes (quote s) (.ofText s) where
  reads := readsAs_quote s
  whole := by simpa [quote] using whole_quoteChars s.toList

theorem writes_operator {op : String} (h : op ∈ [">", ">>", "2>", "2>>"]) :
    Writes op ⟨op, false⟩ := by
  have hall : op.toList.all isOpen = true ∧ op.toList.all ScanMode.isPlain = true ∧
      op.toList ≠ [] := by
    revert op
    decide
  have hh := readsAs_of_open _ (List.all_eq_true.mp hall.1) hall.2.2
  exact ⟨by simpa using hh, ScanMode.whole_of_plain (List.all_eq_true.mp hall.2.1)⟩

theorem Destination.writes_words (d : Destination) {truncating appending : String}
    (ht : truncating ∈ [">", ">>", "2>", "2>>"]) (ha : appending ∈ [">", ">>", "2>", "2>>"]) :
    List.Forall₂ Writes (d.words truncating appending) (d.tokens truncating appending) := by
  cases hd : d.target with
  | none => simp [words, tokens, hd]
  | some t =>
    have hop : Writes (if d.append then appending else truncating)
        ⟨if d.append then appending else truncating, false⟩ := by
      cases d.append
      · exact writes_operator ht
      · exact writes_operator ha
    simpa [words, tokens, hd] using ⟨hop, writes_quote t⟩

theorem Command.writes_words (c : Command) : List.Forall₂ Writes c.words c.tokens := by
  have hr : List.Forall₂ Writes c.redirection.words c.redirection.tokens :=
    List.rel_append (c.redirection.stdout.writes_words (by simp) (by simp))
      (c.redirection.stderr.writes_words (by simp) (by simp))
  by_cases hc : c.isEmpty = true
  · simpa [words, tokens, hc] using hr
  · have hq : ∀ l : List String, List.Forall₂ Writes (l.map quote) (l.map Word.ofText) := by
      intro l
      simp [List.forall₂_map_left_iff, List.forall₂_map_right_iff, List.forall₂_same, writes_quote]
    rw [words, tokens, if_neg hc, if_neg hc]
    exact List.rel_append (hq (c.name :: c.args)) hr

theorem toList_joined (sep s : String) (rest : List String) : (Text.joined sep (s :: rest)).toList =
    s.toList ++ rest.flatMap fun t => sep.toList ++ t.toList := by
  induction rest generalizing s with
  | nil => simp [Text.joined]
  | cons t rest ih =>
    have hh := ih (s ++ sep ++ t)
    simp only [Text.joined, List.foldl_cons] at hh ⊢
    rw [hh]
    simp

/-- A text that is read as some words, also with other words behind a space, and that no bar
cuts. -/
structure Spells (cs : List Char) (ws : List Word) : Prop where
  last : Lexer.start.words cs = ws
  space : ∀ rest, Lexer.start.words (cs ++ ' ' :: rest) = ws ++ Lexer.start.words rest
  whole : ScanMode.Whole cs

theorem Spells.nil : Spells [] [] where
  last := rfl
  space rest := Lexer.start_words_blank (by decide) rest
  whole := .nil

theorem Spells.cons {x : String} {w : Word} (h : Writes x w) {cs : List Char} {ws : List Word}
    (hs : Spells cs ws) : Spells (x.toList ++ ' ' :: cs) (w :: ws) where
  last := by rw [h.reads.blank (by decide), hs.last]
  space rest := by
    rw [List.append_assoc, List.cons_append, h.reads.blank (by decide), hs.space, List.cons_append]
  whole := by
    have hblank : ScanMode.Whole [' '] :=
      ScanMode.whole_of_plain (List.forall_mem_singleton.mpr rfl)
    exact h.whole.append (hblank.append hs.whole)

theorem Writes.spells {x : String} {w : Word} (h : Writes x w) : Spells x.toList [w] where
  last := h.reads.last
  space rest := by rw [h.reads.blank (by decide), List.singleton_append]
  whole := h.whole

theorem spells_flatMap {x : String} {w : Word} {xs : List String} {ws : List Word}
    (h : Writes x w) (hs : List.Forall₂ Writes xs ws) :
    Spells (x.toList ++ xs.flatMap fun t => ' ' :: t.toList) (w :: ws) := by
  induction hs generalizing x w with
  | nil => simpa using h.spells
  | cons hy _ ih => simpa using (ih hy).cons h

theorem Command.spells_render (c : Command) : Spells c.render.toList c.tokens := by
  have hh := c.writes_words
  rw [render]
  cases hx : c.words with
  | nil =>
    rw [hx, List.forall₂_nil_left_iff] at hh
    rw [hh]
    exact .nil
  | cons x xs =>
    rw [hx] at hh
    obtain ⟨w, ws, hw, hws, htok⟩ := List.forall₂_cons_left_iff.mp hh
    rw [htok, toList_joined]
    exact spells_flatMap hw hws

theorem operator?_ofText (s : String) : (Word.ofText s).operator? = none := by
  cases hb : isBareText s with
  | false => simp [Word.ofText, Word.operator?, hb]
  | true =>
    have hne : ∀ op, isBareText op = false → s ≠ op := by
      rintro op hop rfl
      simp [hb] at hop
    simp [Word.ofText, Word.operator?, hb, operatorOf, hne ">" (by decide), hne "1>" (by decide),
      hne ">>" (by decide), hne "1>>" (by decide), hne "2>" (by decide), hne "2>>" (by decide)]

theorem Redirection.collect_tokens (r : Redirection) :
    collect r.tokens none = ([], r.normal) := by
  obtain ⟨⟨out, outAppend⟩, ⟨err, errAppend⟩⟩ := r
  cases out <;> cases err <;> cases outAppend <;> cases errAppend <;> rfl

theorem Command.ofTokens_tokens (c : Command) : Command.ofTokens c.tokens = c.normal := by
  have hplain : ∀ w ∈ (if c.isEmpty then [] else c.name :: c.args).map Word.ofText,
      w.operator? = none := by
    intro w hw
    obtain ⟨s, -, rfl⟩ := List.mem_map.mp hw
    exact operator?_ofText s
  rw [ofTokens, tokens, Redirection.collect_append_plain hplain, Redirection.collect_tokens]
  by_cases hc : c.isEmpty = true
  · have hn : c.name = "" := String.isEmpty_iff.mp hc
    simp [hc, normal, ofWords, hn]
  · simp [hc, normal, ofWords, Word.ofText, Function.comp_def]

theorem start_words_spaces {done : List Char} (hd : done = [] ∨ done = [' ']) (cs : List Char) :
    Lexer.start.words (done.reverse ++ cs) = Lexer.start.words cs := by
  rcases hd with rfl | rfl
  · rfl
  · exact Lexer.start_words_blank (by decide) cs

/-- The segments of a written pipeline are its written stages, with a space at each bar. -/
theorem words_segmentsFrom_render (c : Command) (cs : List Command) {done : List Char}
    (hd : done = [] ∨ done = [' ']) :
    (segmentsFrom .plain done (c.render.toList ++
      cs.flatMap fun d => ' ' :: '|' :: ' ' :: d.render.toList)).map Lexer.start.words =
      (c :: cs).map Command.tokens := by
  induction cs generalizing c done with
  | nil =>
    rw [List.flatMap_nil, segmentsFrom_whole c.spells_render.whole]
    simp [segmentsFrom, start_words_spaces hd, c.spells_render.last]
  | cons d ds ih =>
    have hspace : ∀ done rest, segmentsFrom .plain done (' ' :: rest) =
      segmentsFrom .plain (' ' :: done) rest := fun _ _ => rfl
    have hfirst : Lexer.start.words (' ' :: (c.render.toList.reverse ++ done)).reverse =
        c.tokens := by
      have hh := start_words_spaces hd (c.render.toList ++ [' '])
      rw [c.spells_render.space] at hh
      simpa [Lexer.words, Lexer.finish, Lexer.start] using hh
    rw [segmentsFrom_whole c.spells_render.whole, List.flatMap_cons]
    simp only [List.cons_append]
    rw [hspace, segmentsFrom_bar, hspace, List.map_cons, hfirst, ih d (.inr rfl)]
    rfl

theorem Pipeline.parse_render_eq (p : Pipeline) : parse p.render = p.normal := by
  apply ext_stages
  have hh := words_segmentsFrom_render p.first p.rest (.inl rfl)
  have hr : p.render.toList = p.first.render.toList ++
      p.rest.flatMap fun d => ' ' :: '|' :: ' ' :: d.render.toList := by
    simp [render, stages, toList_joined, List.flatMap_map]
  have hn : p.normal.stages = p.stages.map Command.normal := rfl
  rw [← hr] at hh
  rw [stages_parse, hn, ← Function.comp_def, ← List.map_map, hh]
  simp [stages, Command.ofTokens_tokens]

/-- The pipeline says nothing that has no place in a line. -/
def Pipeline.IsNormal (p : Pipeline) : Prop :=
  ∀ c ∈ p.stages, (c.name = "" → c.args = []) ∧
    ∀ s, (c.redirection.get s).target = none → (c.redirection.get s).append = false

theorem Destination.normal_eq_iff (d : Destination) :
    d.normal = d ↔ (d.target = none → d.append = false) := by
  obtain ⟨target, append⟩ := d
  cases target <;> cases append <;> simp [normal]

theorem Redirection.normal_eq_iff (r : Redirection) :
    r.normal = r ↔ ∀ s, (r.get s).target = Option.none → (r.get s).append = false := by
  obtain ⟨out, err⟩ := r
  have hh : (∀ s, ((Redirection.mk out err).get s).normal = (Redirection.mk out err).get s) ↔
      out.normal = out ∧ err.normal = err :=
    ⟨fun h => ⟨h .stdout, h .stderr⟩, fun h s => by cases s <;> simp [get, h]⟩
  simp only [← Destination.normal_eq_iff, hh, normal, mk.injEq]

theorem Command.normal_eq_iff (c : Command) : c.normal = c ↔ (c.name = "" → c.args = []) ∧
    ∀ s, (c.redirection.get s).target = none → (c.redirection.get s).append = false := by
  obtain ⟨name, args, r⟩ := c
  rw [← Redirection.normal_eq_iff]
  by_cases hn : name = ""
  · simp [normal, isEmpty, hn, eq_comm (a := [])]
  · simp [normal, isEmpty, hn]

theorem Pipeline.normal_eq_iff (p : Pipeline) : p.normal = p ↔ p.IsNormal := by
  have hn : p.normal.stages = p.stages.map Command.normal := rfl
  have hs : p.normal = p ↔ p.normal.stages = p.stages := ⟨fun h => by rw [h], ext_stages⟩
  have hm : p.stages.map Command.normal = p.stages ↔ ∀ c ∈ p.stages, c.normal = c := by
    simpa using List.map_inj_left (l := p.stages) (f := Command.normal) (g := id)
  rw [hs, hn, hm, IsNormal]
  simp only [Command.normal_eq_iff]

theorem Destination.words_normal (d : Destination) (truncating appending : String) :
    d.normal.words truncating appending = d.words truncating appending := by
  obtain ⟨target, append⟩ := d
  cases target <;> rfl

theorem Command.render_normal (c : Command) : c.normal.render = c.render := by
  have hr : c.redirection.normal.words = c.redirection.words := by
    simp [Redirection.words, Redirection.normal, Destination.words_normal]
  have he : c.normal.isEmpty = c.isEmpty := rfl
  rw [render, render, words, words, he]
  by_cases hc : c.isEmpty = true
  · simp [hc, normal, hr]
  · simp [hc, normal, hr]

theorem Pipeline.render_normal (p : Pipeline) : p.normal.render = p.render := by
  simp [render, normal, stages, Function.comp_def, Command.render_normal]

/-- Reading a written pipeline gives it back in normal form, so that nothing is lost of one in
normal form and writing again gives the same line. -/
theorem Pipeline.parse_render (p : Pipeline) :
    parse p.render = p.normal ∧ (parse p.render = p ↔ p.IsNormal) ∧
      (parse p.render).render = p.render := by
  rw [parse_render_eq]
  exact ⟨rfl, p.normal_eq_iff, p.render_normal⟩

end PipelineShell
