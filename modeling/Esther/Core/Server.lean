import Esther.Core.Events

/-!
# The Server's Loop

What `init_server` does when a descriptor is ready.

The descriptors it waits for are those of the clients, the listening socket, and that of
the memory server. For all but the listening socket it looks for the client among three
lists and goes on with what it has found, without a test.

The variable of `buscar_proceso` is not initialized. While no client has been looked at, it
points to something the program does not determine, which is an argument here.

## Main definitions

* `Puntero`: What a pointer to a client points to.
* `State.buscarProceso`: The search.
* `State.atiende`: The client a round acts on.
* `State.ronda`: A round.
-/

namespace Esther

namespace Kernel

/-- What a `t_client *` points to: a client, or something else. -/
inductive Puntero
  | cliente (client : Client)
  | suelto
deriving DecidableEq

/-- A loop of `buscar_proceso`: what `aux` points to afterwards, and whether it has returned. -/
def buscarEn (client : Int) : List Client → Puntero → Puntero × Bool
  | [], aux => (aux, false)
  | elem :: elems, _ =>
      if elem.clientID = client then (.cliente elem, true)
      else buscarEn client elems (.cliente elem)

/-- `buscar_proceso`: three loops, one after the other, with the same variable. -/
def State.buscarProceso (k : State) (aux : Puntero) (client : Int) : Puntero :=
  let conectada := buscarEn client k.cpuConectadas aux
  if conectada.2 then conectada.1
  else
    let ejecutando := buscarEn client k.cpuExecuting conectada.1
    if ejecutando.2 then ejecutando.1
    else (buscarEn client k.consolasConectadas ejecutando.1).1

/-- The client a round for a descriptor acts on, if it acts on any. `init_server` follows the
    pointer in any case. -/
def State.atiende (k : State) (aux : Puntero) (i : Int) : Option Puntero :=
  some (k.buscarProceso aux i)

/-- What `init_server` does with a packet of a client, and the packets that follow it: the kernel
    afterwards, and whether the descriptor is closed. -/
def State.despacha (parser : Parser) (config : Config) (k : State) (r : Residue) (client : Client)
    (packet : Packet) (siguientes : List Packet) : Option (State × Bool) :=
  if packet.header.opcode = .OP_UNDEFINED then
    if client.process = .CONSOLE then some (destroyConsole k r client, true) else some (k, true)
  else if client.process = .CONSOLE then
    if packet.header.opcode = .OP_NEW_PROGRAM then
      (gestionDatosNewPcb parser config k r packet client.clientID).map fun k => (k, false)
    else some (k, false)
  else if client.process = .CPU then
    (gestionSyscall config k r packet client siguientes).map fun s => (s.1, false)
  else some (k, false)

/-- A round for a descriptor that is not the listening socket. What is received is what there is
    on the descriptor of the client. -/
def State.ronda (parser : Parser) (config : Config) (k : State) (r : Residue) (aux : Puntero)
    (i : Int) (entrada : Int → Packet × List Packet) : Option (State × Bool) :=
  match k.atiende aux i with
  | none => some (k, false)
  | some .suelto => none
  | some (.cliente client) =>
      let (packet, siguientes) := entrada client.clientID
      k.despacha parser config r client packet siguientes

end Kernel

end Esther
