import Esther.Core.Serial

/-!
# Packets

`protocol.c`: what the processes of the system send each other.

A header names the process and the user program a packet belongs to. Both are
`unsigned char` fields, so assigning a process identifier to `usrpid` keeps its
low eight bits. `msgsize` is the length of the payload and is not stored twice.

A received payload sits in a block of exactly `msgsize` bytes. The receivers
read fields and copy bytes from it without asking for its size, and what they
find past its end is whatever the heap held; `Packet.pointer` is the payload as
they see it, with that residue a parameter.

## Main definitions

* `ProcessT`, `Opcode`: The senders and the operations.
* `Packet`: A packet on the wire.
* `Packet.pointer`: The payload behind a pointer.
* `protocolPacket`: A packet taken from a send buffer.
* `protocolHeaderResponse`: The header of a reply.
-/

namespace Esther

open Cells

/-- `process_t`. -/
inductive ProcessT
  | KERNEL
  | MEMORY
  | FS
  | CPU
  | CONSOLE
deriving DecidableEq, Repr

/-- `enum opcodes`. -/
inductive Opcode
  | OP_UNDEFINED
  | OP_HANDSHAKE
  | OP_RESPONSE
  | OP_ME_INIPRO
  | OP_ME_SOLBYTPAG
  | OP_ME_ALMBYTPAG
  | OP_ME_ASIPAGPRO
  | OP_ME_FINPRO
  | OP_ME_PROX_INST_REQUEST_OK
  | OP_ME_PROX_INST_REQUEST_FAIL
  | OP_KE_SEND_PID
  | OP_KE_SEND_PCB
  | OP_KE_SEND_STACK
  | OP_KE_SEND_STACK_SIZE
  | OP_KE_SEND_CODE
  | OP_KE_PROGRAM_END
  | OP_KE_SEND_QUANTUM
  | OP_NEW_PROGRAM
  | OP_CPU_TAMPAG_REQUEST
  | OP_CPU_PROX_INST_REQUEST
  | OP_CPU_PROGRAM_END
  | OP_CPU_SEMAPHORE
  | OP_PROGRAM_KILLED
  | OP_CPU_SHARED_VAR
  | OP_KE_SEND_SHAREDVALUE
deriving DecidableEq, Repr

structure Header where
  syspid : ProcessT
  usrpid : UInt8
  opcode : Opcode
deriving DecidableEq, Repr

structure Packet where
  header : Header
  payload : List UInt8
deriving DecidableEq, Repr

/-- `header.msgsize`. -/
def Packet.msgsize (packet : Packet) : Nat := packet.payload.length

/-- `header.usrpid`, from `unsigned char` to `int`. -/
def Packet.usrpid (packet : Packet) : Int := packet.header.usrpid.toNat

/-- The payload behind a pointer, `heap` being what lies after it. -/
def Packet.pointer (packet : Packet) (heap : Buf) : Buf := write heap 0 packet.payload

/-- `protocol_header` in a process, with `usrpid` left at zero. -/
def protocolHeader (current : ProcessT) (opcode : Opcode) : Header :=
  { syspid := current, usrpid := 0, opcode := opcode }

/-- `protocol_packet` on a buffer of which `msgsize` bytes are sent. -/
def protocolPacket (header : Header) (buffer : Buf) (msgsize : Nat) : Packet :=
  { header := header, payload := slice buffer 0 msgsize }

/-- `protocol_header_response`: a reply names whom it answers. -/
def protocolHeaderResponse (header : Header) : Header :=
  { header with opcode := .OP_RESPONSE }

/-- A payload read from its start is what was sent. -/
theorem pointer_reads (packet : Packet) (heap : Buf) :
    Reads (packet.pointer heap) 0 packet.payload :=
  reads_write heap 0 packet.payload

/-- What was packed into a send buffer is what is sent. -/
theorem protocolPacket_serialPack (header : Header) (buffer : Buf) (args : List Serial.Arg)
    (bytes : List UInt8) (h : Serial.serialPack buffer 0 args = (write buffer 0 bytes, bytes.length)) :
    (protocolPacket header (Serial.serialPack buffer 0 args).1
      (Serial.serialPack buffer 0 args).2).payload = bytes := by
  rw [h]
  exact reads_write buffer 0 bytes

end Esther
