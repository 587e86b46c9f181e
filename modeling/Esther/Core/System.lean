import Esther.Core.Cpu
import Esther.Core.Events

/-!
# The System

The kernel, the memory server and any number of CPUs, each taking its steps when it
comes to it.

A CPU is known by the descriptor the kernel has for it. What the kernel has sent
there is `wire` of the kernel's state, and reading takes packets off its front; what
the CPU has sent and the kernel not yet read is `outbox`. A packet stays where it is
until somebody reads it, so the processes may be as far apart as they like.

The memory server answers the CPUs at once. What the kernel sends it waits on
`wire`, like everything else the kernel sends; the answers are received and not used,
except for the one that decides an admission, which comes with the event.

## Main definitions

* `Config`, `State`: The processes and what is in transit.
* `Event`: A step of one of them.
* `step`: What it does.
* `PoolEvent`, `stepPool`: The same with CPUs whose connection ends.
* `init`: The kernel and the memory server, with nobody connected.
-/

namespace Esther

namespace System

open Kernel (Client)

/-- The configuration of the kernel, and what a CPU has received of it. -/
structure Config where
  kernel : Kernel.Config
  cpu : Cpu.Config

/-- The processes, and the packets between them. `memoriaConn` is the memory server's
    side of the kernel's connection. -/
structure State where
  kernel : Kernel.State
  memoria : Memoria.ServerState
  memoriaConn : Memoria.Connection
  cpus : Int → Option Cpu.State
  outbox : Int → List Packet

/-- A step of the kernel on its own, a CPU connecting, the kernel reading what a CPU
    has sent, a round of the memory server for the kernel, or a step of a CPU. -/
inductive Event
  | kernel (r : Kernel.Residue) (event : Kernel.Event)
  | connectCpu (r : Kernel.Residue) (fd : Int) (conn : Memoria.Connection)
  | syscall (r : Kernel.Residue) (cpu : Client)
  | memoria (heap heapData : Buf)
  | cpu (r : Cpu.Residue) (fd : Int)

/-- What the kernel does on its own: everything but reading from a CPU. -/
def stepKernel (config : Config) (s : State) (r : Kernel.Residue) : Kernel.Event → Option State
  | .connectCpu _ => none
  | .syscall _ _ _ => none
  | event => match s.kernel.step config.cpu.parser config.kernel (r, event) with
    | some kernel => some { s with kernel := kernel }
    | none => none

/-- A CPU connects, on a descriptor no CPU has, and reads the greeting. -/
def stepConnect (config : Config) (s : State) (r : Kernel.Residue) (fd : Int)
    (conn : Memoria.Connection) : Option State :=
  match s.cpus fd, s.kernel.step config.cpu.parser config.kernel (r, .connectCpu fd) with
  | none, some kernel =>
      some { s with
        kernel := { kernel with wire := Function.update kernel.wire fd [] }
        cpus := Function.update s.cpus fd (some (Cpu.State.init conn)) }
  | _, _ => none

/-- The kernel reads a packet of a CPU it knows, and those it needs after it. -/
def stepSyscall (config : Config) (s : State) (r : Kernel.Residue) (cpu : Client) :
    Option State :=
  if cpu ∈ s.kernel.cpuConectadas ++ s.kernel.cpuExecuting then
    match s.outbox cpu.clientID with
    | [] => none
    | packet :: siguientes =>
        match Kernel.gestionSyscall config.kernel s.kernel r packet cpu siguientes with
        | some (kernel, rest) =>
            some { s with
              kernel := kernel
              outbox := Function.update s.outbox cpu.clientID rest }
        | none => none
  else none

/-- The memory server serves the kernel. -/
def stepMemoria (s : State) (heap heapData : Buf) : Option State :=
  match Memoria.cliThread s.memoria s.memoriaConn heap heapData
      (s.kernel.wire s.kernel.memfd) with
  | some (.replied server conn _ rest) =>
      some { s with
        memoria := server
        memoriaConn := conn
        kernel := { s.kernel with wire := Function.update s.kernel.wire s.kernel.memfd rest } }
  | _ => none

/-- A CPU takes a step. -/
def stepCpu (config : Config) (s : State) (r : Cpu.Residue) (fd : Int) : Option State :=
  match s.cpus fd with
  | none => none
  | some cpu => match Cpu.step config.cpu r cpu s.memoria (s.kernel.wire fd) with
    | none => none
    | some res =>
        some { s with
          memoria := res.memoria
          kernel := { s.kernel with wire := Function.update s.kernel.wire fd res.inbox }
          cpus := Function.update s.cpus fd (some res.state)
          outbox := Function.update s.outbox fd (s.outbox fd ++ res.sent) }

def step (config : Config) (s : State) : Event → Option State
  | .kernel r event => stepKernel config s r event
  | .connectCpu r fd conn => stepConnect config s r fd conn
  | .syscall r cpu => stepSyscall config s r cpu
  | .memoria heap heapData => stepMemoria s heap heapData
  | .cpu r fd => stepCpu config s r fd

/-- A step of the system, or the end of the connection of a CPU. -/
inductive PoolEvent
  | step (e : Event)
  | disconnectCpu (fd : Int)

/-- The kernel reads `OP_UNDEFINED` from a CPU: it has read everything the CPU had sent,
    and the connection is closed. `init_server` closes the descriptor, so what is on it is
    lost, and clears it from the set of those it waits for. For a client that is not a
    console it does no more. -/
def stepDisconnect (s : State) (fd : Int) : Option State :=
  match s.cpus fd, s.outbox fd with
  | some _, [] =>
      some { s with
        kernel := { s.kernel with wire := Function.update s.kernel.wire fd [] }
        cpus := Function.update s.cpus fd none }
  | _, _ => none

def stepPool (config : Config) (s : State) : PoolEvent → Option State
  | .step e => step config s e
  | .disconnectCpu fd => stepDisconnect s fd

/-- The system at start-up. -/
def init (multipgLevel memfd : Int) (semInit : List Int) (shared : Nat)
    (memoria : Memoria.ServerState) (memoriaConn : Memoria.Connection) : State :=
  { kernel := Kernel.State.init multipgLevel memfd semInit shared
    memoria := memoria
    memoriaConn := memoriaConn
    cpus := fun _ => none
    outbox := fun _ => [] }

end System

end Esther
