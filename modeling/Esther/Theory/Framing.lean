import Esther.Core.Socket
import Esther.Theory.Wire

/-!
# Packets from a Stream of Bytes

A receiver finds the packets in the stream again, as long as it takes as many bytes for
each as the sender put there.

How much of the stream is taken depends on `msgsize` alone, with one exception. `recvall`
also receives strings, which end before the buffer does, and tells the two uses apart by
the length asked for: at exactly `BUFFER_CAPACITY` bytes it stops after a zero byte. A
payload of that length is therefore cut short when a chunk of it happens to end in one,
and every later packet is read out of step.

`chunks` is what `recv` returns one call after the other. Everything is decided by the
chunks of the payloads. Those of a header do not matter, since seven bytes are never
taken for a string.

## Main definitions

* `chunks`: What the calls of `recv` return for some bytes of the stream.
* `Ends`: No chunk but the last ends in a zero byte.
* `Unsplit`: No chunk of a payload is mistaken for the end of a string.
* `Framed`: `Unsplit` for all packets of a stream.
* `stream`: The bytes a list of packets is sent as.

## Theorems

* `sendall_eq`: Sending appends the bytes.
* `recvall_whole`, `recvall_short`: When a request is received whole.
* `receivePackets_stream`: A framed stream gives its packets back.
* `receivePackets_raw`: The packets of the other modules get across.
* `framing_iff`: A stream that is not framed does not give its packets back.
-/

namespace Esther

namespace Socket

open Cells Serial

/-- What the calls of `recv` return for the bytes from `pos` on, `fuel` of them at most. -/
def chunks (avail : Nat → Nat) : Nat → Nat → List UInt8 → List (List UInt8)
  | 0, _, _ => []
  | fuel + 1, pos, bytes =>
      if bytes = [] then []
      else
        let n := portion (avail pos) bytes.length
        bytes.take n :: chunks avail fuel (pos + n) (bytes.drop n)

/-- No chunk of the payload but the last could be the end of a string. -/
def Ends (avail : Nat → Nat) (fuel pos : Nat) (bytes : List UInt8) : Prop :=
  ∀ chunk ∈ (chunks avail fuel pos bytes).dropLast, chunk.getLast? ≠ some 0

/-- A payload that begins at `pos` is not mistaken for a string. -/
def Unsplit (avail : Nat → Nat) (pos : Nat) (payload : List UInt8) : Prop :=
  payload.length = bufferCapacity → Ends avail payload.length pos payload

/-- No payload of the stream is mistaken for a string. -/
def Framed (avail : Nat → Nat) : Nat → List Packet → Prop
  | _, [] => True
  | pos, packet :: packets =>
      Unsplit avail (pos + headerSize) packet.payload
        ∧ Framed avail (pos + headerSize + packet.payload.length) packets

/-- A packet that can be sent and received at all. -/
structure Packet.WellFormed (packet : Packet) : Prop where
  opcode : packet.header.opcode ≠ opUndefined
  msgsize : packet.payload.length = packet.header.msgsize
  bound : packet.header.msgsize < 2 ^ 32

/-- The bytes of a header. -/
def headerBytes (header : Header) : List UInt8 :=
  encArgs [.C header.syspid.toNat, .C header.usrpid.toNat, .C header.opcode.toNat,
    .L header.msgsize]

/-- The bytes a list of packets is sent as. -/
def stream (packets : List Packet) : List UInt8 :=
  packets.flatMap fun packet => headerBytes packet.header ++ packet.payload

/-- Successive calls of `protocol_packet_send`. -/
def sendPackets (accept : Nat → Nat) (buffer : Buf) (conn : Conn) (packets : List Packet) : Conn :=
  packets.foldl (fun conn packet => protocolPacketSend accept buffer conn packet) conn

section Portion

theorem portion_le (avail len : Nat) : portion avail len ≤ len := Nat.min_le_right _ _

theorem portion_pos (avail len : Nat) (h : 0 < len) : 0 < portion avail len := by
  simp only [portion]
  omega

end Portion

section Sending

/-- However the bytes are accepted, they are appended to the stream. -/
theorem sendallLoop_eq (accept : Nat → Nat) (fuel sent : Nat) (buf : List UInt8) (conn : Conn)
    (h : buf.length ≤ fuel) :
    sendallLoop accept fuel sent buf conn = { conn with stream := conn.stream ++ buf } := by
  induction fuel generalizing sent buf conn with
  | zero =>
      have hnil : buf = [] := List.eq_nil_of_length_eq_zero (Nat.le_zero.mp h)
      rw [sendallLoop, hnil, List.append_nil]
  | succ fuel ih =>
      by_cases hnil : buf = []
      · rw [sendallLoop, if_pos hnil, hnil, List.append_nil]
      · -- At least one byte is accepted, so the rest is shorter.
        have hpos := portion_pos (accept sent) buf.length (List.length_pos_iff.mpr hnil)
        rw [sendallLoop, if_neg hnil]
        simp only
        rw [ih _ _ _ (by rw [List.length_drop]; omega)]
        simp only [List.append_assoc, List.take_append_drop]

theorem sendall_eq (accept : Nat → Nat) (buf : List UInt8) (conn : Conn) :
    sendall accept buf conn = { conn with stream := conn.stream ++ buf } :=
  sendallLoop_eq accept buf.length 0 buf conn (Nat.le_refl _)

theorem headerBytes_length (header : Header) : (headerBytes header).length = headerSize := rfl

/-- A header is sent as its bytes. -/
theorem sendHeader_eq (accept : Nat → Nat) (buffer : Buf) (header : Header) (conn : Conn) :
    sendHeader accept buffer header conn
      = { conn with stream := conn.stream ++ headerBytes header } := by
  have hstored : slice (write buffer 0 (headerBytes header)) 0 (headerBytes header).length
      = headerBytes header := reads_write buffer 0 _
  simp only [headerBytes] at hstored ⊢
  simp only [sendHeader, serialPack_eq, sendall_eq, hstored]

theorem protocolPacketSend_eq (accept : Nat → Nat) (buffer : Buf) (conn : Conn) (packet : Packet)
    (hw : packet.WellFormed) :
    protocolPacketSend accept buffer conn packet
      = { conn with stream := conn.stream ++ (headerBytes packet.header ++ packet.payload) } := by
  rw [protocolPacketSend, sendall_eq, sendHeader_eq,
    List.take_of_length_le (Nat.le_of_eq hw.msgsize)]
  simp only [List.append_assoc]

/-- Sending packets appends their stream. -/
theorem sendPackets_eq (accept : Nat → Nat) (buffer : Buf) (conn : Conn) (packets : List Packet)
    (hw : ∀ packet ∈ packets, packet.WellFormed) :
    sendPackets accept buffer conn packets
      = { conn with stream := conn.stream ++ stream packets } := by
  induction packets generalizing conn with
  | nil => simp only [sendPackets, List.foldl_nil, stream, List.flatMap_nil, List.append_nil]
  | cons packet packets ih =>
      have hrest := ih (protocolPacketSend accept buffer conn packet)
        fun q hq => hw q (List.mem_cons_of_mem _ hq)
      rw [sendPackets, List.foldl_cons]
      rw [sendPackets] at hrest
      rw [hrest, protocolPacketSend_eq accept buffer conn packet (hw packet List.mem_cons_self)]
      simp only [stream, List.flatMap_cons, List.append_assoc]

end Sending

section Receiving

/-- One call of `recv` returns the next chunk of what is asked for. -/
theorem recv_eq (avail : Nat → Nat) (rest tail : List UInt8) (pos : Nat) :
    recv avail rest.length { stream := rest ++ tail, pos := pos }
      = (rest.take (portion (avail pos) rest.length),
          { stream := rest.drop (portion (avail pos) rest.length) ++ tail
            pos := pos + portion (avail pos) rest.length }) := by
  have hle := portion_le (avail pos) rest.length
  simp only [recv]
  rw [List.take_append_of_le_length hle, List.length_take, Nat.min_eq_left hle,
    List.drop_append_of_le_length hle]

theorem ends_tail (avail : Nat → Nat) (fuel pos : Nat) (bytes : List UInt8) (n : Nat)
    (hn : n = portion (avail pos) bytes.length) (hne : bytes ≠ []) (hrest : bytes.drop n ≠ [])
    (hfuel : bytes.length ≤ fuel + 1) :
    Ends avail (fuel + 1) pos bytes
      ↔ (bytes.take n).getLast? ≠ some 0 ∧ Ends avail fuel (pos + n) (bytes.drop n) := by
  have hlen : 0 < (bytes.drop n).length := List.length_pos_iff.mpr hrest
  have hpos := portion_pos (avail pos) bytes.length (List.length_pos_iff.mpr hne)
  -- There is a chunk after this one, so this one is not the last.
  have htail : chunks avail fuel (pos + n) (bytes.drop n) ≠ [] := by
    cases fuel with
    | zero =>
        rw [List.length_drop] at hlen
        omega
    | succ fuel =>
        rw [chunks, if_neg hrest]
        exact List.cons_ne_nil _ _
  simp only [Ends]
  rw [chunks, if_neg hne]
  simp only [← hn]
  rw [List.dropLast_cons_of_ne_nil htail]
  simp only [List.mem_cons, forall_eq_or_imp]

/-- One round of the loop takes the next portion, and stops if that looks like the end of a
    string. -/
theorem recvallLoop_succ (avail : Nat → Nat) (len fuel : Nat) (buf rest tail : List UInt8)
    (pos n : Nat) (hlen : buf.length + rest.length = len) (hne : rest ≠ [])
    (hn : n = portion (avail pos) rest.length) :
    recvallLoop avail len (fuel + 1) buf { stream := rest ++ tail, pos := pos }
      = if len = bufferCapacity ∧ (rest.take n).getLast? = some 0 then
          (buf ++ rest.take n, (buf ++ rest.take n).length,
            { stream := rest.drop n ++ tail, pos := pos + n })
        else recvallLoop avail len fuel (buf ++ rest.take n)
          { stream := rest.drop n ++ tail, pos := pos + n } := by
  have hrest : 0 < rest.length := List.length_pos_iff.mpr hne
  have hpos := portion_pos (avail pos) rest.length hrest
  -- The connection is not dropped while bytes are missing.
  have hchunk : rest.take n ≠ [] := by
    intro hc
    have hzero := congrArg List.length hc
    rw [List.length_take, List.length_nil] at hzero
    omega
  rw [recvallLoop, if_pos (by omega), show len - buf.length = rest.length by omega]
  simp only [recv_eq, ← hn]
  rw [if_neg hchunk, List.getLast?_append_of_ne_nil _ hchunk]

/-- Nothing is lost between what is in the buffer and what is still to come. -/
theorem length_portion (buf rest : List UInt8) (n : Nat) :
    (buf ++ rest.take n).length + (rest.drop n).length = buf.length + rest.length := by
  rw [List.length_append, Nat.add_assoc, ← List.length_append, List.take_append_drop]

/-- A request that is not mistaken for a string is received whole. -/
theorem recvallLoop_whole (avail : Nat → Nat) (len fuel : Nat) (buf rest tail : List UInt8)
    (pos : Nat) (hlen : buf.length + rest.length = len) (hfuel : rest.length ≤ fuel)
    (hends : len = bufferCapacity → Ends avail fuel pos rest) :
    recvallLoop avail len fuel buf { stream := rest ++ tail, pos := pos }
      = (buf ++ rest, len, { stream := tail, pos := pos + rest.length }) := by
  induction fuel generalizing buf rest pos with
  | zero =>
      have hnil : rest = [] := List.eq_nil_of_length_eq_zero (Nat.le_zero.mp hfuel)
      subst hnil
      rw [List.length_nil, Nat.add_zero] at hlen
      rw [recvallLoop, hlen]
      simp only [List.append_nil, List.nil_append, List.length_nil, Nat.add_zero]
  | succ fuel ih =>
      by_cases hnil : rest = []
      · subst hnil
        rw [List.length_nil, Nat.add_zero] at hlen
        rw [recvallLoop, if_neg (by omega), hlen]
        simp only [List.append_nil, List.nil_append, List.length_nil, Nat.add_zero]
      have hle := portion_le (avail pos) rest.length
      have hpos := portion_pos (avail pos) rest.length (List.length_pos_iff.mpr hnil)
      rw [recvallLoop_succ avail len fuel buf rest tail pos _ hlen hnil rfl]
      -- One round of the loop takes `n` bytes, and the induction takes the rest.
      generalize hn : portion (avail pos) rest.length = n at hle hpos ⊢
      have hjoin := (length_portion buf rest n).trans hlen
      by_cases hdone : rest.drop n = []
      · -- The last chunk: the request is complete whichever way the loop is left.
        have hall : rest.take n = rest := by
          have hsplit := List.take_append_drop n rest
          rw [hdone, List.append_nil] at hsplit
          exact hsplit
        rw [hall, hdone, List.length_nil, Nat.add_zero] at hjoin
        have hsame : n = rest.length := by
          have hcovered := List.drop_eq_nil_iff.mp hdone
          omega
        rw [hall, hdone, hsame]
        split
        · rw [hjoin, List.nil_append]
        · cases fuel with
          | zero => rw [recvallLoop, hjoin, List.nil_append]
          | succ fuel => rw [recvallLoop, if_neg (by omega), hjoin, List.nil_append]
      · -- A chunk before the last one, which does not look like the end of a string.
        have hstep : len = bufferCapacity →
            (rest.take n).getLast? ≠ some 0 ∧ Ends avail fuel (pos + n) (rest.drop n) := by
          intro hcap
          exact (ends_tail avail fuel pos rest n hn.symm hnil hdone hfuel).mp (hends hcap)
        rw [if_neg fun hc => (hstep hc.1).1 hc.2,
          ih _ _ _ hjoin (by rw [List.length_drop]; omega) fun hcap => (hstep hcap).2,
          List.append_assoc, List.take_append_drop, List.length_drop]
        rw [show pos + n + (rest.length - n) = pos + rest.length by omega]

/-- A request that is mistaken for a string is not. -/
theorem recvallLoop_short (avail : Nat → Nat) (fuel : Nat) (buf rest tail : List UInt8) (pos : Nat)
    (hlen : buf.length + rest.length = bufferCapacity) (hfuel : rest.length ≤ fuel)
    (hends : ¬ Ends avail fuel pos rest) :
    (recvallLoop avail bufferCapacity fuel buf { stream := rest ++ tail, pos := pos }).1.length
      < bufferCapacity := by
  induction fuel generalizing buf rest pos with
  | zero => exact absurd (fun chunk hc => absurd hc List.not_mem_nil) hends
  | succ fuel ih =>
      by_cases hnil : rest = []
      · refine absurd (fun chunk hc => ?_) hends
        rw [chunks, if_pos hnil] at hc
        exact absurd hc List.not_mem_nil
      have hpos := portion_pos (avail pos) rest.length (List.length_pos_iff.mpr hnil)
      rw [recvallLoop_succ avail bufferCapacity fuel buf rest tail pos _ hlen hnil rfl]
      generalize hn : portion (avail pos) rest.length = n at hpos ⊢
      have hjoin := (length_portion buf rest n).trans hlen
      by_cases hdone : rest.drop n = []
      · -- A single chunk has none before it.
        refine absurd (fun chunk hc => ?_) hends
        have hlast : chunks avail fuel (pos + n) (rest.drop n) = [] := by
          cases fuel with
          | zero => rfl
          | succ fuel => rw [chunks, if_pos hdone]
        rw [chunks, if_neg hnil, hn] at hc
        simp only [hlast, List.dropLast_singleton] at hc
        exact absurd hc List.not_mem_nil
      · have hleft : 0 < (rest.drop n).length := List.length_pos_iff.mpr hdone
        rw [ends_tail avail fuel pos rest n hn.symm hnil hdone hfuel, not_and_or] at hends
        by_cases hz : (rest.take n).getLast? = some 0
        · -- This is the chunk that looks like the end of a string.
          rw [if_pos ⟨rfl, hz⟩]
          simp only
          omega
        · rw [if_neg fun hc => hz hc.2]
          -- The chunk that ends too early is one of the later ones.
          refine ih _ _ _ hjoin (by rw [List.length_drop]; omega) ?_
          rcases hends with hnz | htail
          · exact absurd hz hnz
          · exact htail

/-- A request of which the bytes arrive is received whole, if it is not mistaken for a
    string. -/
theorem recvall_whole (avail : Nat → Nat) (bytes tail : List UInt8) (pos : Nat)
    (h : Unsplit avail pos bytes) :
    recvall avail bytes.length { stream := bytes ++ tail, pos := pos }
      = (bytes, bytes.length, { stream := tail, pos := pos + bytes.length }) := by
  have hloop := recvallLoop_whole avail bytes.length bytes.length [] bytes tail pos
    (by rw [List.length_nil, Nat.zero_add]) (Nat.le_refl _) h
  rw [List.nil_append] at hloop
  exact hloop

/-- A payload that is mistaken for a string is received short. -/
theorem recvall_short (avail : Nat → Nat) (bytes tail : List UInt8) (pos : Nat)
    (h : ¬ Unsplit avail pos bytes) :
    (recvall avail bytes.length { stream := bytes ++ tail, pos := pos }).1 ≠ bytes := by
  simp only [Unsplit, Classical.not_imp] at h
  rcases h with ⟨hcap, hends⟩
  have hshort := recvallLoop_short avail bytes.length [] bytes tail pos
    (by rw [List.length_nil, Nat.zero_add]; exact hcap) (Nat.le_refl _) hends
  intro hc
  rw [recvall, hcap] at hc
  rw [hcap, hc] at hshort
  omega

/-- The header of a packet is received as it was sent, in whatever chunks. -/
theorem receiveHeader_eq (avail : Nat → Nat) (buffer : Buf) (header : Header) (tail : List UInt8)
    (pos : Nat) (hb : header.msgsize < 2 ^ 32) :
    receiveHeader avail buffer { stream := headerBytes header ++ tail, pos := pos }
      = (header, { stream := tail, pos := pos + headerSize }) := by
  have hrecv : recvall avail headerSize { stream := headerBytes header ++ tail, pos := pos }
      = (headerBytes header, headerSize, { stream := tail, pos := pos + headerSize }) := by
    refine recvall_whole avail (headerBytes header) tail pos fun hc => ?_
    rw [headerBytes_length] at hc
    exact absurd hc (by decide)
  -- The fields are read where they were written.
  have hreads : Reads (write buffer 0 (headerBytes header)) 0 (headerBytes header) :=
    reads_write buffer 0 _
  rcases (reads_cons _ _ _ _).mp hreads with ⟨hsys, hreads⟩
  rcases (reads_cons _ _ _ _).mp hreads with ⟨husr, hreads⟩
  rcases (reads_cons _ _ _ _).mp hreads with ⟨hop, hreads⟩
  have hsize := unpacku32_of_reads _ _ header.msgsize (by omega) (by omega) hreads
  have hbyte : ∀ b : UInt8, byte (b.toNat : Int) = b := by
    intro b
    have hb := byte_toNat (b.toNat : Int)
    have hlt := b.toNat_lt
    exact UInt8.toNat_inj.mp (by omega)
  rw [receiveHeader, hrecv]
  simp only [headerSize, Nat.zero_lt_succ, if_true]
  rw [show (0 : Int) + 1 + 1 + 1 = 3 from rfl] at hsize
  rw [show (0 : Int) + 1 = 1 from rfl] at husr
  rw [show (0 : Int) + 1 + 1 = 2 from rfl] at hop
  rw [hsys, husr, hop, hsize, hbyte, hbyte, hbyte, Int.toNat_natCast]

/-- A packet at the front of the stream, as far as its payload is received. -/
theorem protocolPacketReceive_eq (avail : Nat → Nat) (buffer : Buf) (packet : Packet)
    (tail : List UInt8) (pos : Nat) (hw : packet.WellFormed) :
    protocolPacketReceive avail buffer
        { stream := headerBytes packet.header ++ packet.payload ++ tail, pos := pos }
      = ({ header := packet.header
           payload := (recvall avail packet.payload.length
             { stream := packet.payload ++ tail, pos := pos + headerSize }).1 },
         (recvall avail packet.payload.length
             { stream := packet.payload ++ tail, pos := pos + headerSize }).2.2) := by
  rw [List.append_assoc, protocolPacketReceive, receiveHeader_eq _ _ _ _ _ hw.bound]
  simp only
  rw [if_neg hw.opcode, ← hw.msgsize]

/-- A framed stream gives its packets back. -/
theorem receivePackets_stream (avail : Nat → Nat) (buffer : Buf) (packets : List Packet)
    (pos : Nat) (hw : ∀ packet ∈ packets, packet.WellFormed) (hf : Framed avail pos packets) :
    receivePackets avail buffer packets.length { stream := stream packets, pos := pos }
      = packets := by
  induction packets generalizing pos with
  | nil => rfl
  | cons packet packets ih =>
      have hrecv := protocolPacketReceive_eq avail buffer packet (stream packets) pos
        (hw packet List.mem_cons_self)
      rw [recvall_whole _ _ _ _ hf.1] at hrecv
      have hrest := ih _ (fun q hq => hw q (List.mem_cons_of_mem _ hq)) hf.2
      rw [List.length_cons, receivePackets]
      simp only [stream, List.flatMap_cons] at hrecv hrest ⊢
      rw [hrecv]
      simp only
      rw [hrest]

/-- Payloads of other lengths are never mistaken for a string. -/
theorem framed_of_length (avail : Nat → Nat) (packets : List Packet) (pos : Nat)
    (h : ∀ packet ∈ packets, packet.payload.length ≠ bufferCapacity) :
    Framed avail pos packets := by
  induction packets generalizing pos with
  | nil => trivial
  | cons packet packets ih =>
      refine ⟨fun hc => absurd hc (h packet List.mem_cons_self), ih _ fun q hq => ?_⟩
      exact h q (List.mem_cons_of_mem _ hq)

/-- The first payload that is mistaken for a string is missing from what is received. -/
theorem framed_of_receivePackets (avail : Nat → Nat) (buffer : Buf) (packets : List Packet)
    (pos : Nat) (hw : ∀ packet ∈ packets, packet.WellFormed)
    (hr : receivePackets avail buffer packets.length { stream := stream packets, pos := pos }
      = packets) : Framed avail pos packets := by
  induction packets generalizing pos with
  | nil => trivial
  | cons packet packets ih =>
      have hrecv := protocolPacketReceive_eq avail buffer packet (stream packets) pos
        (hw packet List.mem_cons_self)
      rw [List.length_cons, receivePackets] at hr
      simp only [stream, List.flatMap_cons] at hrecv hr
      rw [hrecv, List.cons.injEq] at hr
      have hpayload : (recvall avail packet.payload.length
          { stream := packet.payload ++ stream packets, pos := pos + headerSize }).1
            = packet.payload := congrArg Packet.payload hr.1
      -- A payload in two parts would have come back short.
      have hunsplit : Unsplit avail (pos + headerSize) packet.payload := by
        by_contra hc
        exact recvall_short avail packet.payload (stream packets) _ hc hpayload
      refine ⟨hunsplit, ih _ (fun q hq => hw q (List.mem_cons_of_mem _ hq)) ?_⟩
      have hwhole := recvall_whole avail packet.payload (stream packets) _ hunsplit
      simp only [stream] at hwhole ⊢
      have hrest := hr.2
      rw [hwhole] at hrest
      exact hrest

end Receiving

/-- The packets of the other modules get across, unless one has a payload as long as the
    buffer for strings. -/
theorem receivePackets_raw (accept avail : Nat → Nat) (out inp : Buf)
    (packets : List Esther.Packet) (hop : ∀ packet ∈ packets, packet.header.opcode ≠ .OP_UNDEFINED)
    (hsize : ∀ packet ∈ packets, packet.msgsize < 2 ^ 32 ∧ packet.msgsize ≠ bufferCapacity) :
    receivePackets avail inp (packets.map Esther.Packet.raw).length
        (sendPackets accept out { stream := [], pos := 0 } (packets.map Esther.Packet.raw))
      = packets.map Esther.Packet.raw := by
  have hw : ∀ raw ∈ packets.map Esther.Packet.raw, raw.WellFormed := by
    intro raw hraw
    rcases List.mem_map.mp hraw with ⟨packet, hpacket, rfl⟩
    refine ⟨fun hc => hop packet hpacket ?_, rfl, (hsize packet hpacket).1⟩
    -- Only `OP_UNDEFINED` has the number zero.
    cases h : packet.header.opcode <;> simp [Esther.Packet.raw, h, Opcode.code, opUndefined] at hc ⊢
  rw [sendPackets_eq accept out _ _ hw]
  simp only [List.nil_append]
  refine receivePackets_stream avail inp _ 0 hw ?_
  exact framed_of_length avail _ 0 fun raw hraw => by
    rcases List.mem_map.mp hraw with ⟨packet, hpacket, rfl⟩
    exact (hsize packet hpacket).2

/-- Successive calls of `protocol_packet_receive` return the packets that were sent, however
    they were chunked, exactly when no payload is mistaken for a string. -/
theorem framing_iff (accept avail : Nat → Nat) (out inp : Buf) (packets : List Packet)
    (hw : ∀ packet ∈ packets, packet.WellFormed) :
    receivePackets avail inp packets.length
        (sendPackets accept out { stream := [], pos := 0 } packets) = packets
      ↔ Framed avail 0 packets := by
  rw [sendPackets_eq accept out _ packets hw]
  simp only [List.nil_append]
  constructor
  · intro hr
    exact framed_of_receivePackets avail inp packets 0 hw hr
  · intro hf
    exact receivePackets_stream avail inp packets 0 hw hf

/-- The code of a small program, on its way from the console to the kernel. -/
def sampleCode : Packet :=
  { header := { syspid := 4, usrpid := 0, opcode := 17, msgsize := 3 }, payload := [101, 110, 0] }

theorem framing_iff_byte_by_byte :
    receivePackets (fun _ => 1) (fun _ => 0) 2
        (sendPackets (fun _ => 2) (fun _ => 0) { stream := [], pos := 0 } [sampleCode, sampleCode])
      = [sampleCode, sampleCode] := by
  refine (framing_iff (fun _ => 2) (fun _ => 1) (fun _ => 0) (fun _ => 0) [sampleCode, sampleCode]
    fun packet hpacket => ?_).mpr ?_
  · have hsame : packet = sampleCode := by
      simpa only [List.mem_cons, List.not_mem_nil, or_false, or_self] using hpacket
    rw [hsame]
    exact ⟨by decide, rfl, by decide⟩
  · exact ⟨fun hc => absurd hc (by decide), fun hc => absurd hc (by decide), trivial⟩

/-- A page of memory as long as the buffer for strings, and without anything in it. -/
def samplePage : Packet :=
  { header := { syspid := 1, usrpid := 1, opcode := 2, msgsize := 1024 }
    payload := List.replicate 1024 0 }

/-- Received in two halves, the page loses the second. -/
theorem halved_page_short :
    samplePage.WellFormed
      ∧ receivePackets (fun _ => 512) (fun _ => 0) 1
          (sendPackets (fun _ => 512) (fun _ => 0) { stream := [], pos := 0 } [samplePage])
        ≠ [samplePage] := by
  have hw : samplePage.WellFormed :=
    ⟨by decide, by simp only [samplePage, List.length_replicate], by decide⟩
  refine ⟨hw, fun hc => ?_⟩
  rw [sendPackets_eq _ _ _ _ (by simpa only [List.mem_singleton, forall_eq] using hw)] at hc
  have hframed := framed_of_receivePackets (fun _ => 512) (fun _ => 0) [samplePage] 0
    (by simpa only [List.mem_singleton, forall_eq] using hw) hc
  have hlength : samplePage.payload.length = 1024 := List.length_replicate
  have hends := hframed.1 hlength
  rw [hlength] at hends
  -- The first half ends in a zero byte and is not the last chunk.
  have hhalf := (ends_tail (fun _ => 512) 1023 7 samplePage.payload 512 (by rw [hlength]; rfl)
    (fun hnil => by rw [hnil] at hlength; exact absurd hlength (by decide))
    (fun hnil => by
      have := List.drop_eq_nil_iff.mp hnil
      omega) (by omega)).mp hends
  refine hhalf.1 ?_
  rw [samplePage, List.take_replicate, List.getLast?_replicate]
  rfl

end Socket

end Esther
