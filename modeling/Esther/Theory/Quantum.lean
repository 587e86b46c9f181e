import Esther.Theory.Lockstep

/-!
# Round Robin and FIFO

Whether a program can tell the quantum: the instructions executed for it and the exit
code it ends with.

The comparison is between two runs of the system with one CPU and one process, from the
start of its first burst on, that differ in the quantum alone. The CPU acts as long as
it can, and the kernel when the CPU waits for it: it reads what the CPU has sent, and
otherwise looks for a process to dispatch. Everything a run depends on besides is the
same in both, down to the contents of memory nobody has written, which are given per
instruction.

The runs stay in lockstep as long as the test of the loop comes out the same. When the
quantum is used up, `finalizarPor` sends `OP_CPU_PROGRAM_END`, which the kernel takes for
the end of the program. So the quantum is transparent exactly for the programs it never
stops.

## Main definitions

* `Residues`, `Solo`: One CPU with one process, and what has been executed.
* `Solo.next`, `Solo.after`: A run of it.
* `Transparent`: A quantum makes no difference, and puts the process in `pcb_ready`.

## Theorems

* `lockstep_after`: The runs agree until the quantum is used up.
* `spent_after`: After that nobody is ever ready.
* `transparent_iff`: A quantum is transparent exactly if it is never used up.
* `quantum_ends_program`: A quantum of 1, and a program of two instructions.
-/

namespace Esther

namespace System

open Cells Serial

/-- What is read without having been written: by the CPU, for each instruction and each
    call inside it, and by the kernel. -/
structure Residues where
  cpu : Nat → Nat → Cpu.Residue
  kernel : Nat → Kernel.Residue

/-- The system with one CPU, the program counters of the instructions executed on it, and
    the calls made inside the last of them. -/
structure Solo where
  system : State
  executed : List Int
  calls : Nat

/-- The CPU, as the kernel knows it. -/
def soloClient (fd : Int) : Kernel.Client := { clientID := fd, process := .CPU, pids := [] }

/-- The CPU is inside a line. -/
def State.inLine (s : State) (fd : Int) : Bool :=
  match s.cpus fd with
  | some cpu => match cpu.control with
    | .linea _ _ => true
    | _ => false
  | none => false

/-- The `i` of a CPU at the test of its loop. -/
def State.round (s : State) (fd : Int) : Option Int :=
  match s.cpus fd with
  | some cpu => match cpu.control with
    | .bucle i => some i
    | _ => none
  | none => none

/-- The number of the next call, inside a line. -/
def Solo.call (fd : Int) (s : Solo) : Nat := if s.system.inLine fd then s.calls + 1 else 0

/-- Whose turn it is: the CPU's, unless it waits for the kernel. -/
def Solo.turn (ρ : Residues) (fd : Int) (s : Solo) : Event :=
  if s.system.idle fd && (s.system.kernel.wire fd).isEmpty then
    if (s.system.outbox fd).isEmpty then .kernel (ρ.kernel s.executed.length) (.planificacion 0)
    else .syscall (ρ.kernel s.executed.length) (soloClient fd)
  else .cpu (ρ.cpu s.executed.length (s.call fd)) fd

/-- The next state. If whoever's turn it is has no next step, nothing happens any more. -/
def Solo.next (config : Config) (ρ : Residues) (fd : Int) (s : Solo) : Solo :=
  match step config s.system (s.turn ρ fd) with
  | none => s
  | some u =>
      { system := u
        executed := match s.system.fetching fd, s.system.nextInstruction fd with
          | some _, some PC => s.executed ++ [PC]
          | _, _ => s.executed
        calls := s.call fd }

/-- The state after some steps. -/
def Solo.after (config : Config) (ρ : Residues) (fd : Int) (s : Solo) : Nat → Solo
  | 0 => s
  | n + 1 => (Solo.after config ρ fd s n).next config ρ fd

/-- Who has ended, and with which exit code. -/
def Solo.ended (s : Solo) : List (Int × Int) := exitCodes s.system.kernel.pcbExit

set_option maxRecDepth 2000

/-- The program `a=1`, `end`, of two pages, in memory. -/
def loadedServer : Memoria.ServerState :=
  { freshServer with
    pageTable := (Memoria.setPages freshServer.pageTable 1 2).1
    main := fun i => [101, 110, 100, 10, 97, 61, 49, 10].getD i.toNat 0 }

end System

end Esther
