import Esther.Core.Protocol

/-!
# Sockets

`socket.c` and the sending and receiving half of `protocol.c`: packets as the bytes of
a connection.

A connection is a stream of bytes of which the receiver has taken some. How much one
`recv` returns is up to the operating system. Nothing is assumed about it but that it
returns something and not more than it was asked for: `avail` is how much has arrived
behind each position of the stream, and as `recv` is called at most once at a position,
every way of splitting the stream is some `avail`. The same goes for `send`.

The other modules speak of packets and never of bytes. `Esther.Packet.raw` is a packet
of theirs as `packet_t` has it.

## Main definitions

* `Conn`: A connection, as its receiver sees it.
* `Header`, `Packet`: `header_t` and `packet_t`.
* `sendall`, `recvall`: The loops over `send` and `recv`.
* `protocolPacketSend`, `protocolPacketReceive`: A packet.
* `Ending`, `protocolPacketReceiveUntil`: A packet from a connection that ends.
-/

namespace Esther

namespace Socket

open Cells Serial

/-- The bytes not received yet, and how many have been. -/
structure Conn where
  stream : List UInt8
  pos : Nat
deriving DecidableEq, Repr

/-- `header_t`. -/
structure Header where
  syspid : UInt8
  usrpid : UInt8
  opcode : UInt8
  msgsize : Nat
deriving DecidableEq, Repr

/-- `packet_t`. The payload is the bytes that have been stored in it. -/
structure Packet where
  header : Header
  payload : List UInt8
deriving DecidableEq, Repr

/-- `HEADER_SIZE`. -/
def headerSize : Nat := 7

/-- `OP_UNDEFINED`. -/
def opUndefined : UInt8 := 0

/-- How many bytes a call gets through that is asked for `len`. -/
def portion (avail len : Nat) : Nat := min (max 1 avail) len

/-- The loop of `sendall` over what is left of the buffer, `sent` being what is not. -/
def sendallLoop (accept : Nat → Nat) : Nat → Nat → List UInt8 → Conn → Conn
  | 0, _, _, conn => conn
  | fuel + 1, sent, buf, conn =>
      if buf = [] then conn
      else
        let n := portion (accept sent) buf.length
        sendallLoop accept fuel (sent + n) (buf.drop n)
          { conn with stream := conn.stream ++ buf.take n }

/-- `sendall`. -/
def sendall (accept : Nat → Nat) (buf : List UInt8) (conn : Conn) : Conn :=
  sendallLoop accept buf.length 0 buf conn

/-- `recv`. -/
def recv (avail : Nat → Nat) (len : Nat) (conn : Conn) : List UInt8 × Conn :=
  let chunk := conn.stream.take (portion (avail conn.pos) len)
  (chunk, { stream := conn.stream.drop chunk.length, pos := conn.pos + chunk.length })

/-- The loop of `recvall`: what is in the buffer, and the value returned. -/
def recvallLoop (avail : Nat → Nat) (len : Nat) : Nat → List UInt8 → Conn →
    List UInt8 × Nat × Conn
  | 0, buf, conn => (buf, buf.length, conn)
  | fuel + 1, buf, conn =>
      if buf.length < len then
        let r := recv avail (len - buf.length) conn
        -- The connection was dropped.
        if r.1 = [] then (buf, 0, r.2)
        -- A string has been received, if it is one that was to be received.
        else if len = bufferCapacity ∧ (buf ++ r.1).getLast? = some 0 then
          (buf ++ r.1, (buf ++ r.1).length, r.2)
        else recvallLoop avail len fuel (buf ++ r.1) r.2
      else (buf, buf.length, conn)

/-- `recvall`, which `socket_receive_bytes` is another name for. -/
def recvall (avail : Nat → Nat) (len : Nat) (conn : Conn) : List UInt8 × Nat × Conn :=
  recvallLoop avail len len [] conn

/-- `send_header`. -/
def sendHeader (accept : Nat → Nat) (buffer : Buf) (header : Header) (conn : Conn) : Conn :=
  let p := serialPack buffer 0
    [.C header.syspid.toNat, .C header.usrpid.toNat, .C header.opcode.toNat, .L header.msgsize]
  sendall accept (slice p.1 0 p.2) conn

/-- `receive_header`. Without a header everything is zero. -/
def receiveHeader (avail : Nat → Nat) (buffer : Buf) (conn : Conn) : Header × Conn :=
  let r := recvall avail headerSize conn
  let buffer := write buffer 0 r.1
  if 0 < r.2.1 then
    ({ syspid := buffer 0
       usrpid := buffer 1
       opcode := buffer 2
       msgsize := (unpacku32 buffer 3).toNat }, r.2.2)
  else ({ syspid := 0, usrpid := 0, opcode := 0, msgsize := 0 }, r.2.2)

/-- `protocol_packet_send`. -/
def protocolPacketSend (accept : Nat → Nat) (buffer : Buf) (conn : Conn) (packet : Packet) :
    Conn :=
  sendall accept (packet.payload.take packet.header.msgsize)
    (sendHeader accept buffer packet.header conn)

/-- `protocol_packet_receive`. -/
def protocolPacketReceive (avail : Nat → Nat) (buffer : Buf) (conn : Conn) : Packet × Conn :=
  let h := receiveHeader avail buffer conn
  if h.1.opcode = opUndefined then ({ header := h.1, payload := [] }, h.2)
  else
    let r := recvall avail h.1.msgsize h.2
    ({ header := h.1, payload := r.1 }, r.2.2)

/-- Successive calls of `protocol_packet_receive`. -/
def receivePackets (avail : Nat → Nat) (buffer : Buf) : Nat → Conn → List Packet
  | 0, _ => []
  | n + 1, conn =>
      let r := protocolPacketReceive avail buffer conn
      r.1 :: receivePackets avail buffer n r.2

/-- What comes after the bytes of a connection: the other side has closed it, or `recv`
    fails. -/
inductive Ending
  | closed
  | error
deriving DecidableEq, Repr

/-- What `recv` returns then. -/
def Ending.code : Ending → Int
  | .closed => 0
  | .error => -1

/-- The loop of `recvall` on a connection that ends. -/
def recvallLoopUntil (ending : Ending) (avail : Nat → Nat) (len : Nat) :
    Nat → List UInt8 → Conn → List UInt8 × Int × Conn
  | 0, buf, conn => (buf, buf.length, conn)
  | fuel + 1, buf, conn =>
      if buf.length < len then
        let r := recv avail (len - buf.length) conn
        -- No more bytes will come; `recv` says so by its result.
        if r.1 = [] then (buf, ending.code, r.2)
        else if len = bufferCapacity ∧ (buf ++ r.1).getLast? = some 0 then
          (buf ++ r.1, (buf ++ r.1).length, r.2)
        else recvallLoopUntil ending avail len fuel (buf ++ r.1) r.2
      else (buf, buf.length, conn)

/-- `recvall` on a connection that ends. -/
def recvallUntil (ending : Ending) (avail : Nat → Nat) (len : Nat) (conn : Conn) :
    List UInt8 × Int × Conn :=
  recvallLoopUntil ending avail len len [] conn

/-- `receive_header` on a connection that ends. -/
def receiveHeaderUntil (ending : Ending) (avail : Nat → Nat) (buffer : Buf) (conn : Conn) :
    Header × Conn :=
  let r := recvallUntil ending avail headerSize conn
  let buffer := write buffer 0 r.1
  if 0 < r.2.1 then
    ({ syspid := buffer 0
       usrpid := buffer 1
       opcode := buffer 2
       msgsize := (unpacku32 buffer 3).toNat }, r.2.2)
  else ({ syspid := 0, usrpid := 0, opcode := 0, msgsize := 0 }, r.2.2)

/-- `protocol_packet_receive` on a connection that ends. What `recvall` returns for the
    payload is not looked at. -/
def protocolPacketReceiveUntil (ending : Ending) (avail : Nat → Nat) (buffer : Buf)
    (conn : Conn) : Packet × Conn :=
  let h := receiveHeaderUntil ending avail buffer conn
  if h.1.opcode = opUndefined then ({ header := h.1, payload := [] }, h.2)
  else
    let r := recvallUntil ending avail h.1.msgsize h.2
    ({ header := h.1, payload := r.1 }, r.2.2)

end Socket

/-- The number of an operation. -/
def Opcode.code : Opcode → UInt8
  | .OP_UNDEFINED => 0
  | .OP_HANDSHAKE => 1
  | .OP_RESPONSE => 2
  | .OP_ME_INIPRO => 3
  | .OP_ME_SOLBYTPAG => 4
  | .OP_ME_ALMBYTPAG => 5
  | .OP_ME_ASIPAGPRO => 6
  | .OP_ME_FINPRO => 7
  | .OP_ME_PROX_INST_REQUEST_OK => 8
  | .OP_ME_PROX_INST_REQUEST_FAIL => 9
  | .OP_KE_SEND_PID => 10
  | .OP_KE_SEND_PCB => 11
  | .OP_KE_SEND_STACK => 12
  | .OP_KE_SEND_STACK_SIZE => 13
  | .OP_KE_SEND_CODE => 14
  | .OP_KE_PROGRAM_END => 15
  | .OP_KE_SEND_QUANTUM => 16
  | .OP_NEW_PROGRAM => 17
  | .OP_CPU_TAMPAG_REQUEST => 18
  | .OP_CPU_PROX_INST_REQUEST => 19
  | .OP_CPU_PROGRAM_END => 20
  | .OP_CPU_SEMAPHORE => 21
  | .OP_PROGRAM_KILLED => 22
  | .OP_CPU_SHARED_VAR => 23
  | .OP_KE_SEND_SHAREDVALUE => 24

/-- The number of a process of the system. -/
def ProcessT.code : ProcessT → UInt8
  | .KERNEL => 0
  | .MEMORY => 1
  | .FS => 2
  | .CPU => 3
  | .CONSOLE => 4

/-- A packet, as `packet_t` has it. -/
def Packet.raw (packet : Packet) : Socket.Packet :=
  { header :=
      { syspid := packet.header.syspid.code
        usrpid := packet.header.usrpid
        opcode := packet.header.opcode.code
        msgsize := packet.msgsize }
    payload := packet.payload }

end Esther
