import PipelineShell.Pipeline.Parser
import PipelineShell.Proofs.Lexing.Words

/-! The stages of a parsed line: one for each segment, with the operators taken out of its words. -/

namespace PipelineShell

theorem segmentsFrom_ne_nil (m : ScanMode) (done cs : List Char) :
    segmentsFrom m done cs ≠ [] := by
  induction cs generalizing m done with
  | nil => simp [segmentsFrom]
  | cons c cs ih => by_cases hc : m.cuts c = true <;> simp [segmentsFrom, hc, ih]

def Command.ofTokens (ws : List Word) : Command :=
  Command.ofWords (Redirection.collect ws Redirection.none)

theorem Command.parse_ofList (cs : List Char) :
    Command.parse (String.ofList cs) = Command.ofTokens (Lexer.start.words cs) := by
  rw [Command.parse, Word.ofSegment, String.toList_ofList, Command.ofTokens]

namespace Pipeline

theorem ext_stages {p q : Pipeline} (h : p.stages = q.stages) : p = q := by
  cases p
  cases q
  simpa [stages] using h

theorem stages_parse (line : String) : (parse line).stages =
    (segmentsFrom .plain [] line.toList).map fun cs => Command.ofTokens (Lexer.start.words cs) := by
  cases h : segmentsFrom .plain [] line.toList with
  | nil => exact absurd h (segmentsFrom_ne_nil _ _ _)
  | cons s rest => simp [parse, h, stages, Command.parse_ofList]

theorem size_parse (line : String) : (parse line).size = (segments line).length := by
  simp [size, stages_parse, segments]

end Pipeline

namespace Redirection

theorem collect_append_plain {ws : List Word} (h : ∀ w ∈ ws, w.operator? = Option.none)
    (vs : List Word) (r : Redirection) : collect (ws ++ vs) r =
      (ws.map (·.text) ++ (collect vs r).1, (collect vs r).2) := by
  induction ws with
  | nil => rfl
  | cons w ws ih =>
    have hw := h w (by simp)
    simp [collect, hw, ih fun v hv => h v (by simp [hv])]

end Redirection

end PipelineShell
