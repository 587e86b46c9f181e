import Esther.Core.Events

/-!
# The Kernel's Two Threads

The kernel runs two threads. `init_server` handles what the clients send, and `terminal`
reads commands. Both change the queues, and `mutex_planificacion` stands between them: the
server takes it for new programs, for the messages of the CPUs and for the scheduling rounds,
and not for connections and for the end of a console. The terminal takes it with `stop` and
gives it back with `restart`, and holds it from one command to another.

`init_server` goes around: `select` says which descriptors are ready, what is on each of them
is handled, and a scheduling round ends the pass. A handler reads the kernel's data when it
starts and leaves them changed when it ends, and the steps of the terminal may come in between.
What the terminal changes then is changed in both, if the handler does not use it; where it
does, the program has no defined behaviour, and there is no step. Both threads are taken to see
the steps in the same order.

There is none either where `restart` unlocks a mutex the terminal does not hold. `stop` on a
mutex the terminal holds already waits for it like any other; the mutex is an ordinary one.

The commands that only print are left out.

## Main definitions

* `Servidor`, `Terminal`, `Hilos`: Where the two threads are.
* `Event.bajoMutex`: The events handled under the mutex.
* `Event.usaColas`, `Event.usaNivel`: What the handlers use of the data the terminal changes.
* `Paso`: What the threads do.
* `Hilos.step`: One step of one of them.
-/

namespace Esther

namespace Kernel

/-- The threads that lock `mutex_planificacion`. -/
inductive Hilo
  | initServer
  | terminal
deriving DecidableEq, Repr

/-- Where `init_server` is: between two handlers, in `pthread_mutex_lock`, or in a handler,
    with what that leaves. `turno` is what it has still to handle in this pass. -/
inductive Servidor
  | recorre (turno : List (Residue × Event))
  | espera (e : Residue × Event) (turno : List (Residue × Event))
  | atiende (e : Residue × Event) (turno : List (Residue × Event)) (deja : State)

/-- Where `terminal` is: in `input`, in the `pthread_mutex_lock` of `stop`, or in the `while`
    of `kill`. -/
inductive Terminal
  | lee
  | espera
  | busca (pid : Int)
deriving DecidableEq, Repr

/-- The kernel's data, the thread that holds the mutex, and the two threads. -/
structure Hilos where
  kernel : State
  mutex : Option Hilo
  servidor : Servidor
  terminal : Terminal

/-- The events `init_server` locks the mutex for. -/
def Event.bajoMutex : Event → Bool
  | .newProgram _ _ => true
  | .planificacion _ => true
  | .syscall _ _ _ => true
  | _ => false

/-- The handlers that use the queues `kill` looks into, or `pcb_exit`. A message of a CPU that
    is not about its end or a semaphore only uses `pcb_exec`. -/
def Event.usaColas : Event → Bool
  | .connectConsole _ => false
  | .connectCpu _ => false
  | .syscall _ packet _ =>
      packet.header.opcode == .OP_CPU_PROGRAM_END || packet.header.opcode == .OP_CPU_SEMAPHORE
  | _ => true

/-- The handler that uses `multipg_level`. -/
def Event.usaNivel : Event → Bool
  | .planificacion _ => true
  | _ => false

/-- The events a ready descriptor can bring: all but the rounds and `kill`. -/
def Event.deCliente : Event → Bool
  | .planificacion _ => false
  | .kill _ => false
  | _ => true

/-- The steps of `init_server`, with what the ready descriptors will bring and what the memory
    server will answer in the round, and those of `terminal`: its commands, the mutex it waits
    for, and a round of `kill`. The argument of `multipg` may be missing. -/
inductive Paso
  | select (listos : List (Residue × Event)) (r : Residue) (res : Int)
  | siguiente
  | toma
  | termina
  | stop
  | detiene
  | restart
  | kill (pid : Int)
  | ronda
  | multipg (level : Option Int)

/-- The terminal changes the kernel's data, which a running handler may not use. -/
def Hilos.cambia (s : Hilos) (usa : Event → Bool) (f : State → State) : Option Hilos :=
  match s.servidor with
  | .atiende e turno deja =>
      if usa e.2 then none
      else some { s with kernel := f s.kernel, servidor := .atiende e turno (f deja) }
  | _ => some { s with kernel := f s.kernel }

/-- What `set_multiprog_level` does with a valid argument. -/
def State.conNivel (k : State) (level : Int) : State := { k with multipgLevel := level }

/-- A handler starts. -/
def Hilos.empieza (parser : Parser) (config : Config) (s : Hilos) (e : Residue × Event)
    (turno : List (Residue × Event)) : Option Hilos :=
  match s.kernel.serve parser config e with
  | some deja => some { s with servidor := .atiende e turno deja }
  | none => none

/-- A step of one of the threads. -/
def Hilos.step (parser : Parser) (config : Config) (s : Hilos) : Paso → Option Hilos
  | .select listos r res => match s.servidor with
    | .recorre [] =>
        if listos.all fun e => e.2.deCliente then
          some { s with servidor := .recorre (listos ++ [(r, .planificacion res)]) }
        else none
    | _ => none
  | .siguiente => match s.servidor with
    | .recorre (e :: turno) =>
        if e.2.bajoMutex then some { s with servidor := .espera e turno }
        else s.empieza parser config e turno
    | _ => none
  | .toma => match s.servidor, s.mutex with
    | .espera e turno, none =>
        Hilos.empieza parser config { s with mutex := some .initServer } e turno
    | _, _ => none
  | .termina => match s.servidor with
    | .atiende e turno deja =>
        some { s with
          kernel := deja
          mutex := if e.2.bajoMutex then none else s.mutex
          servidor := .recorre turno }
    | _ => none
  | .stop => match s.terminal with
    | .lee => some { s with terminal := .espera }
    | _ => none
  | .detiene => match s.terminal, s.mutex with
    | .espera, none => some { s with mutex := some .terminal, terminal := .lee }
    | _, _ => none
  | .restart => match s.terminal, s.mutex with
    | .lee, some .terminal => some { s with mutex := none }
    | _, _ => none
  | .kill pid => match s.terminal with
    | .lee => some { s with terminal := .busca pid }
    | _ => none
  | .ronda => match s.terminal with
    | .busca pid =>
        Hilos.cambia { s with terminal := if s.kernel.killable pid then .lee else .busca pid }
          Event.usaColas fun k => terminalKill k pid
    | _ => none
  | .multipg level => match s.terminal with
    | .lee => match level with
      | none => some s
      | some level =>
          if level < 0 then some s
          else s.cambia Event.usaNivel fun k => k.conNivel level
    | _ => none

/-- The kernel once `create_connections` is done and `terminal` has been created. -/
def Hilos.inicio (k : State) : Hilos :=
  { kernel := k
    mutex := none
    servidor := .recorre []
    terminal := .lee }

end Kernel

end Esther
