/-! Attempts: steps that change a state and may fail. A failure keeps the changes made before it. -/

namespace PipelineShell

abbrev Attempt (ε σ α : Type) := EStateM ε σ α

namespace Attempt

variable {ε ε' σ ρ α : Type}

instance decidableEqResult [DecidableEq ε] [DecidableEq σ] [DecidableEq α] :
    DecidableEq (EStateM.Result ε σ α)
  | .ok a s, .ok b t => decidable_of_decidable_of_iff (p := a = b ∧ s = t) (by simp)
  | .error e s, .error f t => decidable_of_decidable_of_iff (p := e = f ∧ s = t) (by simp)
  | .ok .., .error .. => isFalse nofun
  | .error .., .ok .. => isFalse nofun

/-- The step and then the ending, however the step ended. A failure of the ending comes first. -/
def ensure (step : Attempt ε σ α) (ending : Attempt ε σ Unit) : Attempt ε σ α := fun s =>
  match step s with
  | .ok a s =>
    match ending s with
    | .ok _ s => .ok a s
    | .error e s => .error e s
  | .error e s =>
    match ending s with
    | .ok _ s => .error e s
    | .error e' s => .error e' s

def within (get : σ → ρ) (put : ρ → σ → σ) (step : Attempt ε ρ α) : Attempt ε σ α := fun s =>
  match step (get s) with
  | .ok a r => .ok a (put r s)
  | .error e r => .error e (put r s)

/-- The step, and another one for the failures that it handles. -/
def handle (step : Attempt ε σ α) (h : ε → Option (Attempt ε σ α)) : Attempt ε σ α := fun s =>
  match step s with
  | .ok a s => .ok a s
  | .error e s =>
    match h e with
    | some other => other s
    | none => .error e s

def outcome (step : Attempt ε σ α) : Attempt ε' σ (Except ε α) := fun s =>
  match step s with
  | .ok a s => .ok (.ok a) s
  | .error e s => .ok (.error e) s

end Attempt

end PipelineShell
