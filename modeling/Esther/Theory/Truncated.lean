import Esther.Core.Memoria
import Esther.Theory.Framing

/-!
# Packets that are Cut Short

What a receiver makes of a packet of which only the beginning arrives.

`receive_header` looks at what `recvall` returns and leaves the header zero when that is
not positive, so that a header that is cut short is one of `OP_UNDEFINED`.
`protocol_packet_receive` does not look: once there is a header, the packet has its
opcode, and its payload is as much as came. How the connection ends makes no difference
to either. A header is seven bytes and never taken for a string, so the place of the cut
is all that matters.

## Main definitions

* `Refused`: A packet is one of `OP_UNDEFINED`, and a server that gets it closes the
  connection.

## Theorems

* `protocolPacketReceiveUntil_eq`: The two ways to end make no difference.
* `recvallLoop_dropped`: Bytes that do not come.
* `receive_cut_header`, `receive_cut_payload`: The two places of the cut.
* `refused_iff`: A packet that is cut short is refused when its header is.
-/

namespace Esther

namespace Socket

open Cells Serial

/-- What is received does not depend on how the connection ends, and whether `recvall`
    returns a positive number does not either. -/
theorem recvallLoopUntil_eq (ending : Ending) (avail : Nat → Nat) (len fuel : Nat)
    (buf : List UInt8) (conn : Conn) :
    (recvallLoopUntil ending avail len fuel buf conn).1 = (recvallLoop avail len fuel buf conn).1 ∧
    (0 < (recvallLoopUntil ending avail len fuel buf conn).2.1 ↔
      0 < (recvallLoop avail len fuel buf conn).2.1) ∧
    (recvallLoopUntil ending avail len fuel buf conn).2.2
      = (recvallLoop avail len fuel buf conn).2.2 := by
  induction fuel generalizing buf conn with
  | zero => exact ⟨rfl, Int.natCast_pos, rfl⟩
  | succ fuel ih =>
      rw [recvallLoopUntil, recvallLoop]
      by_cases hlen : buf.length < len
      · rw [if_pos hlen, if_pos hlen]
        simp only
        by_cases hend : (recv avail (len - buf.length) conn).1 = []
        · rw [if_pos hend, if_pos hend]
          refine ⟨rfl, ?_, rfl⟩
          -- Neither zero nor minus one is positive.
          have hcode : ¬ 0 < ending.code := by
            cases ending <;> decide
          exact iff_of_false hcode (Nat.lt_irrefl 0)
        · rw [if_neg hend, if_neg hend]
          by_cases hstring : len = bufferCapacity ∧
              (buf ++ (recv avail (len - buf.length) conn).1).getLast? = some 0
          · rw [if_pos hstring, if_pos hstring]
            exact ⟨rfl, Int.natCast_pos, rfl⟩
          · rw [if_neg hstring, if_neg hstring]
            exact ih _ _
      · rw [if_neg hlen, if_neg hlen]
        exact ⟨rfl, Int.natCast_pos, rfl⟩

theorem receiveHeaderUntil_eq (ending : Ending) (avail : Nat → Nat) (buffer : Buf) (conn : Conn) :
    receiveHeaderUntil ending avail buffer conn = receiveHeader avail buffer conn := by
  rcases recvallLoopUntil_eq ending avail headerSize headerSize [] conn with ⟨hbuf, hpos, hconn⟩
  rw [receiveHeaderUntil, receiveHeader, recvallUntil, recvall, hbuf, hconn]
  by_cases hp : 0 < (recvallLoop avail headerSize headerSize [] conn).2.1
  · rw [if_pos (hpos.mpr hp), if_pos hp]
  · rw [if_neg (mt hpos.mp hp), if_neg hp]

/-- A packet is received the same whether the connection is closed or fails. -/
theorem protocolPacketReceiveUntil_eq (ending : Ending) (avail : Nat → Nat) (buffer : Buf)
    (conn : Conn) :
    protocolPacketReceiveUntil ending avail buffer conn
      = protocolPacketReceive avail buffer conn := by
  rw [protocolPacketReceiveUntil, protocolPacketReceive, receiveHeaderUntil_eq]
  have hloop := fun len conn => recvallLoopUntil_eq ending avail len len [] conn
  simp only [recvallUntil, recvall, (hloop _ _).1, (hloop _ _).2.2]

/-- `recvall` returns zero when fewer bytes come than were asked for, unless it is receiving
    a string. -/
theorem recvallLoop_dropped (avail : Nat → Nat) (len fuel : Nat) (buf bytes : List UInt8)
    (pos : Nat) (hlen : buf.length + bytes.length < len) (hfuel : bytes.length < fuel)
    (hcap : len ≠ bufferCapacity) :
    (recvallLoop avail len fuel buf { stream := bytes, pos := pos }).2.1 = 0 := by
  induction fuel generalizing buf bytes pos with
  | zero => exact absurd hfuel (Nat.not_lt_zero _)
  | succ fuel ih =>
      rw [recvallLoop, if_pos (by omega)]
      simp only
      have hn := portion_pos (avail pos) (len - buf.length) (by omega)
      have hchunk : (recv avail (len - buf.length) { stream := bytes, pos := pos }).1
          = bytes.take (portion (avail pos) (len - buf.length)) := rfl
      -- When the bytes have run out the connection has ended, and what came is dropped.
      by_cases hnil : bytes = []
      · rw [if_pos (by rw [hchunk, hnil, List.take_nil])]
      · have hbytes : 0 < bytes.length := List.length_pos_iff.mpr hnil
        have hsome : (recv avail (len - buf.length) { stream := bytes, pos := pos }).1 ≠ [] := by
          rw [hchunk]
          intro hc
          rcases List.take_eq_nil_iff.mp hc with hzero | hnone
          · omega
          · exact hnil hnone
        rw [if_neg hsome, if_neg (fun hc => hcap hc.1)]
        refine ih _ (bytes.drop (bytes.take (portion (avail pos) (len - buf.length))).length) _ ?_ ?_
        · rw [hchunk, List.length_append, List.length_drop, List.length_take]
          omega
        · rw [List.length_drop, List.length_take]
          omega

/-- A header that is cut short is one of `OP_UNDEFINED`. -/
theorem receive_cut_header (avail : Nat → Nat) (buffer : Buf) (bytes : List UInt8) (pos : Nat)
    (h : bytes.length < headerSize) :
    (protocolPacketReceive avail buffer { stream := bytes, pos := pos }).1
      = { header := { syspid := 0, usrpid := 0, opcode := opUndefined, msgsize := 0 }
          payload := [] } := by
  have hdropped := recvallLoop_dropped avail headerSize headerSize [] bytes pos
    (by rw [List.length_nil]; omega) h (by decide)
  have hheader : (receiveHeader avail buffer { stream := bytes, pos := pos }).1
      = { syspid := 0, usrpid := 0, opcode := opUndefined, msgsize := 0 } := by
    rw [receiveHeader, recvall, if_neg (by rw [hdropped]; exact Nat.lt_irrefl 0)]
    rfl
  rw [protocolPacketReceive, hheader, if_pos rfl]

/-- A packet of which the header has come has that header. -/
theorem receive_cut_payload (avail : Nat → Nat) (buffer : Buf) (packet : Packet)
    (bytes : List UInt8) (pos : Nat) (hw : packet.WellFormed) :
    (protocolPacketReceive avail buffer
      { stream := headerBytes packet.header ++ bytes, pos := pos }).1.header = packet.header := by
  rw [protocolPacketReceive, receiveHeader_eq _ _ _ _ _ hw.bound, if_neg hw.opcode]

/-- The packet is one of `OP_UNDEFINED`, and the memory server, which knows operations by
    their number, closes the connection when it gets it and does nothing else. -/
def Refused (packet : Packet) : Prop :=
  packet.header.opcode = opUndefined ∧
    ∀ (received : Esther.Packet), received.header.opcode.code = packet.header.opcode →
      ∀ server conn heap heapData rest,
        Memoria.cliThread server conn heap heapData (received :: rest) = some .closed

/-- Only `OP_UNDEFINED` has the number zero. -/
theorem code_eq_undefined (opcode : Opcode) (h : opcode.code = opUndefined) :
    opcode = .OP_UNDEFINED := by
  revert h
  cases opcode <;> decide

theorem refused_iff_opcode (packet : Packet) :
    Refused packet ↔ packet.header.opcode = opUndefined := by
  refine ⟨fun h => h.1, fun h => ⟨h, fun received hcode server conn heap heapData rest => ?_⟩⟩
  have hop := code_eq_undefined received.header.opcode (hcode.trans h)
  simp only [Memoria.cliThread, hop]

/-- A number for a program, of which the first byte has come. -/
theorem cut_payload_kept : ¬ Refused (protocolPacketReceiveUntil .closed (fun _ => 8) (fun _ => 0)
    { stream := (stream [{ header := { syspid := 0, usrpid := 1, opcode := 3, msgsize := 2 }
                           payload := [0, 5] }]).take 8
      pos := 0 }).1 := by
  rw [refused_iff_opcode]
  decide

/-- Of a packet that is cut short and the end of the connection, however they are received,
    the receiver makes a packet that is refused exactly when the cut is in the header. -/
theorem refused_iff (packet : Packet) (hw : packet.WellFormed) (cut : Nat)
    (hcut : cut < (stream [packet]).length) (ending : Ending) (avail : Nat → Nat) (buffer : Buf)
    (pos : Nat) :
    Refused (protocolPacketReceiveUntil ending avail buffer
      { stream := (stream [packet]).take cut, pos := pos }).1 ↔ cut < headerSize := by
  rw [protocolPacketReceiveUntil_eq, refused_iff_opcode]
  by_cases hhead : cut < headerSize
  · refine iff_of_true ?_ hhead
    rw [receive_cut_header _ _ _ _ (by rw [List.length_take]; omega)]
  · refine iff_of_false ?_ hhead
    have hsplit : (stream [packet]).take cut
        = headerBytes packet.header ++ packet.payload.take (cut - headerSize) := by
      simp only [stream, List.flatMap_cons, List.flatMap_nil, List.append_nil]
      rw [List.take_append, headerBytes_length,
        List.take_of_length_le (by rw [headerBytes_length]; omega)]
    rw [hsplit, receive_cut_payload _ _ _ _ _ hw]
    exact hw.opcode

/-- The same number, cut in the header. -/
theorem refused_iff_number : Refused (protocolPacketReceiveUntil .error (fun _ => 1) (fun _ => 0)
    { stream := (stream [{ header := { syspid := 0, usrpid := 1, opcode := 3, msgsize := 2 }
                           payload := [0, 5] }]).take 6
      pos := 0 }).1 :=
  (refused_iff { header := { syspid := 0, usrpid := 1, opcode := 3, msgsize := 2 }
                 payload := [0, 5] }
    ⟨by decide, rfl, by decide⟩ 6 (by decide) .error (fun _ => 1) (fun _ => 0) 0).mpr (by decide)

end Socket

end Esther
