import PipelineShell.Builtin
import PipelineShell.Builtin.Copying
import PipelineShell.Builtin.Lookup
import PipelineShell.Builtin.Record

/-! What each builtin does. -/

namespace PipelineShell.Builtin

variable {τ : Type}

def run : Builtin → Handler τ
  | cat => runCat
  | cd => runCd
  | clear => runClear
  | date => runDate
  | echo => runEcho
  | env => runEnv
  | exit => fun _ => pure Bool.false
  | history => runHistory
  | pwd => runPwd
  | sleep => runSleep
  | true => fun _ => pure Bool.true
  | type => runType
  | which => runWhich
  | whoami => runWhoami

end PipelineShell.Builtin
