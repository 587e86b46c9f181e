import Esther.Core.Server

/-!
# The Descriptors of the Server

`init_server` with the descriptors it has open.

A client is known by its descriptor, and a descriptor is free again once it has been closed:
`accept` may return it for the next client, whatever that is. `init_server` takes down what
has connected in one of its lists, and finds it there by the number.

The kernel's events name the client they come from. Here a round names a descriptor, and what
is on it comes from whoever has it; the client the kernel acts on is the one `buscar_proceso`
finds. The connection to the memory server is one of the descriptors that are waited for, from
the start on. It is ready when the memory server has sent something nobody has asked for, or
is gone.

With no client in its lists `buscar_proceso` returns a pointer that has never been set. Such a
round has no result.

## Main definitions

* `Conexiones`: The kernel, and what is connected to each descriptor.
* `Suceso`: What happens to the descriptors.
* `Conexiones.step`: A connection, a round for a descriptor, a scheduling round, a `kill`.
-/

namespace Esther

namespace Kernel

/-- The kernel, and what is connected to each descriptor of its set. -/
structure Conexiones where
  kernel : State
  abiertos : Int → Option ProcessT

/-- A connection that `accept` gives a descriptor, with the process that has sent the handshake;
    a descriptor that is ready, with the packets there are on each; a scheduling round; and a
    `kill` of the terminal. -/
inductive Suceso
  | acepta (fd : Int) (process : ProcessT) (r : Residue)
  | listo (i : Int) (entrada : Int → Packet × List Packet) (r : Residue)
  | planificacion (res : Int) (r : Residue)
  | kill (pid : Int) (r : Residue)

/-- What the kernel does with an event, the descriptors being what they are. -/
def Conexiones.sirve (parser : Parser) (config : Config) (m : Conexiones) (e : Residue × Event) :
    Option Conexiones :=
  (m.kernel.serve parser config e).map fun k => { m with kernel := k }

/-- A connection, a round, or what another thread does. `accept` does not return a descriptor
    that is open, and `select` no other. A connection of anything but a console or a CPU is
    closed at once. -/
def Conexiones.step (parser : Parser) (config : Config) (m : Conexiones) :
    Suceso → Option Conexiones
  | .acepta fd process r => match m.abiertos fd with
    | some _ => none
    | none => match process with
      | .CONSOLE =>
          Conexiones.sirve parser config
            { m with abiertos := Function.update m.abiertos fd (some .CONSOLE) }
            (r, .connectConsole fd)
      | .CPU =>
          Conexiones.sirve parser config
            { m with abiertos := Function.update m.abiertos fd (some .CPU) } (r, .connectCpu fd)
      | _ => some m
  | .listo i entrada r => match m.abiertos i with
    | none => none
    | some _ => match m.kernel.ronda parser config r .suelto i entrada with
      | none => none
      | some (k, false) => some { m with kernel := k }
      -- `socket_close`, and out of the set.
      | some (k, true) =>
          some { kernel := k, abiertos := Function.update m.abiertos i none }
  | .planificacion res r => m.sirve parser config (r, .planificacion res)
  | .kill pid r => m.sirve parser config (r, .kill pid)

/-- The kernel at start-up, connected to the memory server and to nothing else. -/
def Conexiones.inicio (multipgLevel memfd : Int) (semInit : List Int) (shared : Nat) :
    Conexiones :=
  { kernel := State.init multipgLevel memfd semInit shared
    abiertos := Function.update (fun _ => none) memfd (some .MEMORY) }

end Kernel

end Esther
