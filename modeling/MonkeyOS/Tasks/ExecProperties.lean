import MonkeyOS.Tasks.ExecResolution

/-! What a failed `execve` leaves of the process. -/

set_option autoImplicit false

namespace MonkeyOS.Tasks

open Lib User Option Machine

section Failures

variable {environment : ExecEnvironment} {taskId : Nat} {currDir : PathBuf}

def stripped (process : Process) : Process :=
  { process.withMemset [] with pageTable := .empty }

def caller : UserSpace where
  process := (Process.new 1 (fileTable 0)).withMemset
    [{ mtype := .Mmap, mtrackers := [], file := none, offset := 0, start := 0x1000, len := 0x1000 }]
  machine := { frames := [], mem := fun _ => 0 }
  tls := { lastAddr := 0, count := 0 }

end Failures

end MonkeyOS.Tasks
