import Esther.Core.System
import Esther.Theory.Encoding

/-!
# Control Blocks in Transit

What a control block has become of when a process of the system has packed it, sent
it and unpacked it on the other side.

Of the nine integers at its front nothing but `toShort` arrives, whatever the block
looks like and whatever lies behind the payload. That is all these modules need: the
number of the process, which says whom a message is about, and the program counter,
which says where the process goes on.

## Main definitions

* `packetPid`: The process a message is about.
* `CarriesPcb`: A packet is a control block, packed.

## Theorems

* `unpacki16_pointer`: A field inside a payload does not depend on what follows it.
* `sendPcb_carries`, `pcbPacket_carries`: What the two senders produce.
* `carries_header`: What arrives of the integers at the front.
-/

namespace Esther

open Cells Serial

/-- The process a message is about. -/
def packetPid (packet : Packet) : Int := unpacki16 (packet.pointer fun _ => 0) 0

/-- The packet is a control block, packed. -/
def CarriesPcb (packet : Packet) (pcb : Pcb) : Prop := packet.payload = encPcb pcb

/-- A byte of a payload does not depend on what lies behind it. -/
theorem pointer_apply (packet : Packet) (heap heap' : Buf) (i : Int) (hlo : 0 ≤ i)
    (hhi : i < packet.payload.length) : packet.pointer heap i = packet.pointer heap' i := by
  unfold Packet.pointer
  rw [write_apply, write_apply, if_pos (by omega), if_pos (by omega)]
  have hk : (i - 0).toNat < packet.payload.length := by omega
  rw [List.getD_eq_getElem?_getD, List.getD_eq_getElem?_getD, List.getElem?_eq_getElem hk]
  rfl

/-- Neither does a field inside it. -/
theorem unpacki16_pointer (packet : Packet) (heap heap' : Buf) (pos : Int) (hlo : 0 ≤ pos)
    (hhi : pos + 2 ≤ packet.payload.length) :
    unpacki16 (packet.pointer heap) pos = unpacki16 (packet.pointer heap') pos := by
  have hfirst := pointer_apply packet heap heap' pos hlo (by omega)
  have hsecond := pointer_apply packet heap heap' (pos + 1) (by omega) (by omega)
  unfold unpacki16
  rw [hfirst, hsecond]

/-- The receiver of a message about a process finds its number. -/
theorem serialUnpackPcb_pid (packet : Packet) (heap : Buf) (h : 2 ≤ packet.payload.length) :
    (serialUnpackPcb (packet.pointer heap)).idProcess = packetPid packet :=
  unpacki16_pointer packet heap _ 0 (le_refl 0) (by omega)

/-- A block that fits into a buffer is packed faithfully. -/
theorem carries_protocolPacket (header : Header) (pcb : Pcb) (buff : Buf)
    (h : pcbBytes pcb ≤ bufferCapacity) :
    CarriesPcb (protocolPacket header (serialPackPcb pcb buff).1 (serialPackPcb pcb buff).2)
      pcb := by
  have hlen := encPcb_length pcb
  have hcap : bufferCapacity = 1024 := rfl
  have hsize : (serialPackPcb pcb buff).2 = (encPcb pcb).length := by
    rw [serialPackPcb_size, toInt_of_lt _ (by omega) (by omega), toSizeT]
    omega
  unfold CarriesPcb protocolPacket
  rw [hsize, serialPackPcb_buf pcb buff (by omega)]
  exact reads_write buff 0 (encPcb pcb)

/-- What the kernel sends to a CPU. -/
theorem sendPcb_carries (r : Kernel.Residue) (pcb : Pcb) (packet : Packet)
    (h : Kernel.sendPcb r pcb = some packet) :
    packet.header.opcode = .OP_KE_SEND_PCB ∧ CarriesPcb packet pcb := by
  simp only [Kernel.sendPcb] at h
  split at h
  · exact absurd h (by simp)
  · rename_i hfit
    rw [Option.some.injEq] at h
    subst h
    exact ⟨rfl, carries_protocolPacket _ _ _ (by omega)⟩

/-- What a CPU sends to the kernel. -/
theorem pcbPacket_carries (r : Cpu.Residue) (pcb : Pcb) (opcode : Opcode) (packet : Packet)
    (h : Cpu.pcbPacket r pcb opcode = some packet) :
    packet.header.opcode = opcode ∧ CarriesPcb packet pcb := by
  simp only [Cpu.pcbPacket] at h
  split at h
  · exact absurd h (by simp)
  · rename_i hfit
    rw [Option.some.injEq] at h
    subst h
    exact ⟨rfl, carries_protocolPacket _ _ _ (by omega)⟩

/-- A packed control block is never shorter than its integers. -/
theorem carries_length (packet : Packet) (pcb : Pcb) (h : CarriesPcb packet pcb) :
    18 ≤ packet.payload.length := by
  have hlen := encPcb_length pcb
  unfold CarriesPcb at h
  rw [h, hlen]
  unfold pcbBytes
  omega

/-- Of the integers at the front of a block, the receiver gets what a field carries. -/
theorem carries_header (packet : Packet) (pcb : Pcb) (heap : Buf) (h : CarriesPcb packet pcb)
    (k : Nat) (hk : k < (Pcb.header pcb).length) :
    unpacki16 (packet.pointer heap) (2 * k) = toShort (Pcb.header pcb)[k] := by
  have hreads := pointer_reads packet heap
  unfold CarriesPcb at h
  rw [h, encPcb, reads_append, reads_append, reads_append] at hreads
  have hfield := unpackFields_of_reads _ _ _ hreads.1.1.1 k hk
  rw [Int.zero_add] at hfield
  exact hfield

theorem carries_pid (packet : Packet) (pcb : Pcb) (h : CarriesPcb packet pcb) :
    packetPid packet = toShort pcb.idProcess :=
  carries_header packet pcb _ h 0 (show 0 < 9 by omega)

theorem carries_PC (packet : Packet) (pcb : Pcb) (heap : Buf) (h : CarriesPcb packet pcb) :
    (serialUnpackPcb (packet.pointer heap)).PC = toShort pcb.PC :=
  carries_header packet pcb heap h 1 (show 1 < 9 by omega)

end Esther
