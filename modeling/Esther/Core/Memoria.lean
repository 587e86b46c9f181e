import Esther.Core.PageTable
import Esther.Core.Protocol

/-!
# The Memory Server

`server.c` of the memory process: the loop that answers one client.

Each round takes a packet, acts on the page table and on main memory, and sends
one reply. A store takes a second packet with the bytes, and it is that second
packet whose `usrpid` is used, the first one being shadowed by it.

Replies are packed into `buffer`, which lives as long as the connection does
and is `BUFFER_CAPACITY` bytes long. A read is copied into it without looking
at the capacity; a longer one writes past the array, and the model has no next
state for it.

## Main definitions

* `ServerState`: The page table, main memory, and the frame size.
* `Connection`: What one client's thread keeps between rounds.
* `iniPro`, `solBytPag`, `almBytPag`, `finPro`: The cases of the switch.
* `cliThread`: One round of the loop.
* `Handles`: The rounds for a list of packets.
-/

namespace Esther

namespace Memoria

open Cells Serial

/-- The data every client's thread works on. -/
structure ServerState where
  marcoSize : Int
  pageTable : PageTable
  main : Buf

/-- The locals of `cli_thread`: `header`, of which the sender's numbers are
    echoed in every reply, and `buffer`. -/
structure Connection where
  header : Header
  buffer : Buf

/-- A reply of `msgsize` bytes from `buffer`. -/
def Connection.reply (conn : Connection) (buffer : Buf) (msgsize : Nat) : Connection × Packet :=
  let header := protocolHeaderResponse conn.header
  ({ header := header, buffer := buffer }, protocolPacket header buffer msgsize)

/-- A reply that packs one number. -/
def Connection.replyInt (conn : Connection) (res : Int) : Connection × Packet :=
  let r := serialPack conn.buffer 0 [.h res]
  conn.reply r.1 r.2

/-- `case OP_ME_INIPRO`. -/
def iniPro (server : ServerState) (conn : Connection) (heap : Buf) (packet : Packet) :
    ServerState × Connection × Packet :=
  let pages := unpacki16 (packet.pointer heap) 0
  let r := setPages server.pageTable packet.usrpid pages
  ({ server with pageTable := r.1 }, conn.replyInt r.2)

/-- `case OP_ME_SOLBYTPAG`. -/
def solBytPag (server : ServerState) (conn : Connection) (heap : Buf) (packet : Packet) :
    Option (ServerState × Connection × Packet) :=
  let payload := packet.pointer heap
  let page := unpacki16 payload 0
  let offset := unpacki16 payload 2
  let size := unpacki16 payload 4
  let frame := getFrame server.pageTable packet.usrpid page
  let r := getBytes server.marcoSize server.main frame offset size conn.buffer
  if r.2 = 0 then some (server, conn.reply conn.buffer 0)
  else if (bufferCapacity : Int) < size then none
  else some (server, conn.reply r.1 size.toNat)

/-- `case OP_ME_ALMBYTPAG`: the request, and the packet with the bytes, each with
    what lies behind its payload. -/
def almBytPag (server : ServerState) (conn : Connection) (heap : Buf) (packet : Packet)
    (heapData : Buf) (data : Packet) : ServerState × Connection × Packet :=
  let payload := packet.pointer heap
  let page := unpacki16 payload 0
  let offset := unpacki16 payload 2
  let size := unpacki16 payload 4
  let frame := getFrame server.pageTable data.usrpid page
  let r := setBytes server.marcoSize server.main frame offset size (data.pointer heapData)
  if r.2 = 0 then (server, conn.reply conn.buffer 0)
  else ({ server with main := r.1 }, conn.replyInt 1)

/-- `case OP_ME_FINPRO`. -/
def finPro (server : ServerState) (conn : Connection) (packet : Packet) :
    ServerState × Connection × Packet :=
  let r := clearPages server.pageTable packet.usrpid
  ({ server with pageTable := r.1 }, conn.replyInt r.2)

/-- What a round of `cli_thread` ends in. -/
inductive Round
  | replied (server : ServerState) (conn : Connection) (reply : Packet) (rest : List Packet)
  | silent (rest : List Packet)
  | closed

/-- One round of the loop of `cli_thread` on the packets that have arrived.
    Nothing happens until there are enough of them. -/
def cliThread (server : ServerState) (conn : Connection) (heap heapData : Buf) :
    List Packet → Option Round
  | [] => none
  | packet :: rest => match packet.header.opcode with
    | .OP_ME_INIPRO =>
        let r := iniPro server conn heap packet
        some (.replied r.1 r.2.1 r.2.2 rest)
    | .OP_ME_SOLBYTPAG => match solBytPag server conn heap packet with
      | some r => some (.replied r.1 r.2.1 r.2.2 rest)
      | none => none
    | .OP_ME_ALMBYTPAG => match rest with
      | [] => none
      | data :: rest =>
          let r := almBytPag server conn heap packet heapData data
          some (.replied r.1 r.2.1 r.2.2 rest)
    | .OP_ME_ASIPAGPRO => some (.silent rest)
    | .OP_ME_FINPRO =>
        let r := finPro server conn packet
        some (.replied r.1 r.2.1 r.2.2 rest)
    | _ => some .closed

/-- The rounds in which a client's packets are answered, all of them, each with some
    bytes behind the payloads. -/
inductive Handles : ServerState → Connection → List Packet → ServerState → Connection → Prop
  | done (server : ServerState) (conn : Connection) : Handles server conn [] server conn
  | round (server server₁ server' : ServerState) (conn conn₁ conn' : Connection)
      (heap heapData : Buf) (packets rest : List Packet) (reply : Packet)
      (hround : cliThread server conn heap heapData packets
        = some (.replied server₁ conn₁ reply rest))
      (hrest : Handles server₁ conn₁ rest server' conn') :
      Handles server conn packets server' conn'

end Memoria

end Esther
