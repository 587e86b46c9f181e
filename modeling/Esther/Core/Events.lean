import Esther.Core.Kernel

/-!
# The Kernel's Events

The kernel as a system that takes one event after another: what `init_server`
reacts to, and the command `kill` of the terminal.

Each event is handled under `mutex_planificacion`, except for `kill`, which takes
no lock; here it is one event like the others. An event comes with the values its
handler finds in memory nobody has written (`Residue`).

A CPU's message is one packet, followed on the same connection by the packets the
handler goes on to read. The event carries exactly those.

## Main definitions

* `Event`: What the kernel reacts to.
* `killLoop`: The command `kill`, whether or not it finds the process.
* `State.step`: The kernel's reaction.
* `State.serve`: The reaction to messages nobody has checked.
* `State.init`: The kernel at start-up.
-/

namespace Esther

namespace Kernel

open Cells Serial

/-- A connection, a packet of a client, the end of a connection, a scheduling
    round, or the command `kill`. -/
inductive Event
  | connectConsole (fd : Int)
  | connectCpu (fd : Int)
  | newProgram (console : Int) (program : Packet)
  | planificacion (res : Int)
  | syscall (cpu : Client) (packet : Packet) (siguientes : List Packet)
  | destroyConsole (client : Client)
  | kill (pid : Int)

/-- The packet a CPU is greeted with. -/
def stackSizePacket (config : Config) (r : Residue) : Packet :=
  packed r (protocolHeader .KERNEL .OP_KE_SEND_STACK_SIZE) [.h config.stackSize, .h config.pageSize]

/-- The process a CPU's message is about. -/
def syscallPid (r : Residue) (packet : Packet) : Int :=
  (serialUnpackPcb (packet.pointer (r.payload 0))).idProcess

/-- The messages a CPU sends: one of the three operations, for a process the
    kernel has in `pcb_exec`. -/
def State.expects (k : State) (r : Residue) (packet : Packet) : Bool :=
  (packet.header.opcode == .OP_CPU_PROGRAM_END || packet.header.opcode == .OP_CPU_SEMAPHORE
      || packet.header.opcode == .OP_CPU_SHARED_VAR)
    && k.pcbExec.any fun pcb => pcb.idProcess == syscallPid r packet

/-- The queues the command `kill` looks into. -/
def State.killable (k : State) (pid : Int) : Bool :=
  (k.pcbNew ++ k.pcbBlock ++ k.pcbReady).any fun pcb => pcb.idProcess == pid

/-- The `while (!stop)` of `kill`, for so many rounds. A round that finds the process sets
    `stop`. -/
def killLoop (pid : Int) : Nat → State → Option State
  | 0, _ => none
  | n + 1, k =>
      if k.killable pid then some (terminalKill k pid) else killLoop pid n (terminalKill k pid)

/-- The kernel's reaction to an event. A message of a CPU is complete, and `kill`
    goes on looking until it finds the process. -/
def State.step (parser : Parser) (config : Config) (k : State) (e : Residue × Event) :
    Option State :=
  match e.2 with
  | .connectConsole fd =>
      some { k with
        consolasConectadas :=
          k.consolasConectadas ++ [{ clientID := fd, process := .CONSOLE, pids := [] }] }
  | .connectCpu fd =>
      let cpu : Client := { clientID := fd, process := .CPU, pids := [] }
      some (State.send { k with cpuConectadas := k.cpuConectadas ++ [cpu] } fd
        (stackSizePacket config e.1))
  | .newProgram console program => gestionDatosNewPcb parser config k e.1 program console
  | .planificacion res => planificacion config k e.1 res
  | .syscall cpu packet siguientes =>
      if k.expects e.1 packet then
        match gestionSyscall config k e.1 packet cpu siguientes with
        | some (k, []) => some k
        | _ => none
      else none
  | .destroyConsole client => some (destroyConsole k e.1 client)
  | .kill pid => if k.killable pid then some (terminalKill k pid) else none

/-- The same, with `gestion_syscall` called for whatever a client sends. -/
def State.serve (parser : Parser) (config : Config) (k : State) (e : Residue × Event) :
    Option State :=
  match e.2 with
  | .syscall cpu packet siguientes =>
      (gestionSyscall config k e.1 packet cpu siguientes).map fun s => s.1
  | _ => k.step parser config e

/-- The kernel after `init` and `get_config`, connected to the memory server. -/
def State.init (multipgLevel memfd : Int) (semInit : List Int) (shared : Nat) : State :=
  { generatorPid := 0
    multipgLevel := multipgLevel
    memfd := memfd
    pcbNew := []
    pcbReady := []
    pcbExec := []
    pcbBlock := []
    pcbExit := []
    codesMs := []
    consolasConectadas := []
    cpuConectadas := []
    cpuExecuting := []
    semAnsisop := semInit
    solicitudesSem := semInit.map fun _ => []
    sharedValues := List.replicate shared 0
    wire := fun _ => [] }

end Kernel

end Esther
