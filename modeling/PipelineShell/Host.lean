import PipelineShell.Program
import PipelineShell.Settings

/-! What a shell leaves to others: to the system that it runs on, and to a reader of settings. -/

namespace PipelineShell

/-- The host of a shell: whether it has the memory for a read of so many bytes, how many bytes a
pipe holds, how much is read ahead of a line, given what comes after it, how much a process takes of
an input that it shares with the shell, and how settings are read. -/
structure Host where
  grants : Nat → Bool
  pipeRoom : Nat
  pipeRoom_pos : 0 < pipeRoom
  ahead : String → Nat
  draws : Launch → Nat
  reader : Settings.Reader

/-- A host that has memory for every read, and on which no settings are given. -/
def Host.ample : Host :=
  ⟨fun _ => true, 65536, by decide, fun _ => 0, fun _ => 0,
    ⟨fun _ => .ok fun _ => none, fun _ => .error .integer⟩⟩

end PipelineShell
