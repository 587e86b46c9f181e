import Esther.Core.Memoria
import Esther.Theory.PageTable
import Esther.Theory.Wire

/-!
# Read and Store Requests

What the memory server does with one read or store request, case by case.

Both handlers are stated by what the request decodes to. A negative offset or a
size that is not positive gets an empty reply; everything else is carried out on
the frame `getFrame` answers with. The three numbers are 16-bit fields, so what
the server works with is `toShort` of what the client meant.

`accessed` lists the cells the copying loops visit; `getBytes_congr` and
`setBytes_of_notMem` say that nothing else is read or written.

## Main definitions

* `requestPage`, `requestOffset`, `requestSize`: What a request decodes to.
* `tableRound`: The page table after a packet.

## Theorems

* `request_of_payload`: A packed request decodes to `toShort` of its fields.
* `setBytes_apply`, `getBytes_slice`: Main memory after a store, and the buffer
  after a read.
* `getBytes_congr`, `setBytes_of_notMem`: The copying functions touch the
  accessed cells only.
* `solBytPag_rejected`, `solBytPag_accepted`: A read request.
* `almBytPag_rejected`, `almBytPag_accepted`: A store request.
* `cliThread_pageTable`: Two of the requests change the page table.
-/

namespace Esther

namespace Memoria

open Cells Serial

/-- The `page`, `offset` and `size` a request decodes to. -/
def requestPage (packet : Packet) (heap : Buf) : Int := unpacki16 (packet.pointer heap) 0

def requestOffset (packet : Packet) (heap : Buf) : Int := unpacki16 (packet.pointer heap) 2

def requestSize (packet : Packet) (heap : Buf) : Int := unpacki16 (packet.pointer heap) 4

/-- What a packet does to the page table. -/
def tableRound (table : PageTable) (packet : Packet) (heap : Buf) : PageTable :=
  match packet.header.opcode with
  | .OP_ME_INIPRO => (setPages table packet.usrpid (unpacki16 (packet.pointer heap) 0)).1
  | .OP_ME_FINPRO => (clearPages table packet.usrpid).1
  | _ => table

/-- A packed request decodes to what its 16-bit fields carry. -/
theorem request_of_payload (packet : Packet) (heap : Buf) (page offset size : Int)
    (h : packet.payload = encArgs [.h page, .h offset, .h size]) :
    requestPage packet heap = toShort page ∧ requestOffset packet heap = toShort offset
      ∧ requestSize packet heap = toShort size := by
  have hreads := pointer_reads packet heap
  have hsplit : encArgs [.h page, .h offset, .h size]
      = encH page ++ (encH offset ++ encH size) := rfl
  have hlen : ∀ v : Int, (encH v).length = 2 := fun _ => rfl
  rw [h, hsplit, reads_append, reads_append, hlen, hlen] at hreads
  rcases hreads with ⟨hpage, hoffset, hsize⟩
  exact ⟨unpacki16_of_reads _ 0 page hpage, unpacki16_of_reads _ 2 offset hoffset,
    unpacki16_of_reads _ 4 size hsize⟩

/-- Main memory after a store that is not rejected. -/
theorem setBytes_apply (marcoSize : Int) (main : Buf) (frame offset size : Int) (data : Buf)
    (hoffset : 0 ≤ offset) (hsize : 0 < size) (c : Int) :
    (setBytes marcoSize main frame offset size data).1 c
      = if frame * marcoSize + offset ≤ c ∧ c < frame * marcoSize + offset + size
        then data (c - (frame * marcoSize + offset)) else main c := by
  have hnat : ((size.toNat : Nat) : Int) = size := Int.toNat_of_nonneg (by omega)
  rw [setBytes, if_neg (by omega), if_neg (by omega)]
  simp only [copy_apply, hnat, Int.zero_add]

/-- The buffer after a read that is not rejected. -/
theorem getBytes_slice (marcoSize : Int) (main : Buf) (frame offset size : Int) (data : Buf)
    (hoffset : 0 ≤ offset) (hsize : 0 < size) :
    slice (getBytes marcoSize main frame offset size data).1 0 size.toNat
      = slice main (frame * marcoSize + offset) size.toNat := by
  rw [getBytes, if_neg (by omega), if_neg (by omega)]
  exact slice_copy_self _ _ _ _ _

theorem mem_accessed (marcoSize frame offset size : Int) (hoffset : 0 ≤ offset) (hsize : 0 < size)
    (c : Int) : c ∈ accessed marcoSize frame offset size
      ↔ frame * marcoSize + offset ≤ c ∧ c < frame * marcoSize + offset + size := by
  rw [accessed, if_neg (by omega), if_neg (by omega), mem_span]
  omega

/-- `set_bytes` changes accessed cells only. -/
theorem setBytes_of_notMem (marcoSize : Int) (main : Buf) (frame offset size : Int) (data : Buf)
    (c : Int) (h : c ∉ accessed marcoSize frame offset size) :
    (setBytes marcoSize main frame offset size data).1 c = main c := by
  rw [setBytes]
  split
  · rfl
  · split
    · rfl
    · rename_i hoffset hsize
      rw [mem_accessed _ _ _ _ (by omega) (by omega)] at h
      simp only [copy_apply]
      rw [if_neg (by omega)]

/-- A rejected read gets an empty reply. -/
theorem solBytPag_rejected (server : ServerState) (conn : Connection) (heap : Buf)
    (packet : Packet) (h : requestOffset packet heap < 0 ∨ requestSize packet heap ≤ 0) :
    solBytPag server conn heap packet = some (server, conn.reply conn.buffer 0) := by
  have hres : (getBytes server.marcoSize server.main
      (getFrame server.pageTable packet.usrpid (requestPage packet heap))
      (requestOffset packet heap) (requestSize packet heap) conn.buffer).2 = 0 := by
    rw [getBytes]
    split
    · rfl
    · rename_i hoffset
      rw [if_pos (h.resolve_left hoffset)]
  simp only [requestOffset, requestSize, requestPage] at hres
  simp only [solBytPag, if_pos hres]

/-- A read that is not rejected gets as many bytes as it asked for, or runs past
    the reply buffer. -/
theorem solBytPag_accepted (server : ServerState) (conn : Connection) (heap : Buf)
    (packet : Packet) (hoffset : ¬ requestOffset packet heap < 0)
    (hsize : ¬ requestSize packet heap ≤ 0) :
    solBytPag server conn heap packet
      = if (bufferCapacity : Int) < requestSize packet heap then none
        else some (server, conn.reply (getBytes server.marcoSize server.main
          (getFrame server.pageTable packet.usrpid (requestPage packet heap))
          (requestOffset packet heap) (requestSize packet heap) conn.buffer).1
          (requestSize packet heap).toNat) := by
  have hres : ¬ (getBytes server.marcoSize server.main
      (getFrame server.pageTable packet.usrpid (requestPage packet heap))
      (requestOffset packet heap) (requestSize packet heap) conn.buffer).2 = 0 := by
    rw [getBytes, if_neg hoffset, if_neg hsize]
    exact Int.one_ne_zero
  simp only [requestOffset, requestSize, requestPage] at hres ⊢
  simp only [solBytPag, if_neg hres]
  rfl

/-- A rejected store changes nothing and gets an empty reply. -/
theorem almBytPag_rejected (server : ServerState) (conn : Connection) (heap : Buf)
    (packet : Packet) (heapData : Buf) (data : Packet)
    (h : requestOffset packet heap < 0 ∨ requestSize packet heap ≤ 0) :
    almBytPag server conn heap packet heapData data = (server, conn.reply conn.buffer 0) := by
  have hres : (setBytes server.marcoSize server.main
      (getFrame server.pageTable data.usrpid (requestPage packet heap))
      (requestOffset packet heap) (requestSize packet heap) (data.pointer heapData)).2 = 0 := by
    rw [setBytes]
    split
    · rfl
    · rename_i hoffset
      rw [if_pos (h.resolve_left hoffset)]
  simp only [requestOffset, requestSize, requestPage] at hres
  simp only [almBytPag, if_pos hres]

/-- A store that is not rejected is carried out and acknowledged. -/
theorem almBytPag_accepted (server : ServerState) (conn : Connection) (heap : Buf)
    (packet : Packet) (heapData : Buf) (data : Packet)
    (hoffset : ¬ requestOffset packet heap < 0) (hsize : ¬ requestSize packet heap ≤ 0) :
    almBytPag server conn heap packet heapData data
      = ({ server with
            main := (setBytes server.marcoSize server.main
              (getFrame server.pageTable data.usrpid (requestPage packet heap))
              (requestOffset packet heap) (requestSize packet heap) (data.pointer heapData)).1 },
          conn.replyInt 1) := by
  have hres : ¬ (setBytes server.marcoSize server.main
      (getFrame server.pageTable data.usrpid (requestPage packet heap))
      (requestOffset packet heap) (requestSize packet heap) (data.pointer heapData)).2 = 0 := by
    rw [setBytes, if_neg hoffset, if_neg hsize]
    exact Int.one_ne_zero
  simp only [requestOffset, requestSize, requestPage] at hres ⊢
  simp only [almBytPag, if_neg hres]

theorem reply_payload (conn : Connection) (buffer : Buf) (msgsize : Nat) :
    (conn.reply buffer msgsize).2.payload = slice buffer 0 msgsize := rfl

/-- A read leaves the server as it is, and a store its page table. -/
theorem solBytPag_server (server server' : ServerState) (conn conn' : Connection) (heap : Buf)
    (packet reply : Packet) (h : solBytPag server conn heap packet = some (server', conn', reply)) :
    server' = server := by
  by_cases hrejected : requestOffset packet heap < 0 ∨ requestSize packet heap ≤ 0
  · rw [solBytPag_rejected server conn heap packet hrejected, Option.some.injEq,
      Prod.mk.injEq] at h
    exact h.1.symm
  · rw [not_or] at hrejected
    rw [solBytPag_accepted server conn heap packet hrejected.1 hrejected.2] at h
    split at h
    · exact absurd h (by simp)
    · rw [Option.some.injEq, Prod.mk.injEq] at h
      exact h.1.symm

theorem almBytPag_pageTable (server : ServerState) (conn : Connection) (heap : Buf)
    (packet : Packet) (heapData : Buf) (data : Packet) :
    (almBytPag server conn heap packet heapData data).1.pageTable = server.pageTable := by
  by_cases hrejected : requestOffset packet heap < 0 ∨ requestSize packet heap ≤ 0
  · rw [almBytPag_rejected server conn heap packet heapData data hrejected]
  · rw [not_or] at hrejected
    rw [almBytPag_accepted server conn heap packet heapData data hrejected.1 hrejected.2]

/-- The page table after a round is up to the first packet of it. -/
theorem cliThread_pageTable (server server' : ServerState) (conn conn' : Connection)
    (heap heapData : Buf) (packet reply : Packet) (rest rest' : List Packet)
    (h : cliThread server conn heap heapData (packet :: rest)
      = some (.replied server' conn' reply rest')) :
    server'.pageTable = tableRound server.pageTable packet heap := by
  unfold cliThread at h
  unfold tableRound
  cases hop : packet.header.opcode with
  | OP_ME_INIPRO =>
      simp only [hop, Option.some.injEq, Round.replied.injEq] at h
      rw [← h.1]
      rfl
  | OP_ME_FINPRO =>
      simp only [hop, Option.some.injEq, Round.replied.injEq] at h
      rw [← h.1]
      rfl
  -- Reading and storing leave the table as it is.
  | OP_ME_SOLBYTPAG =>
      simp only [hop] at h
      cases hsol : solBytPag server conn heap packet with
      | none =>
          rw [hsol] at h
          exact absurd h (by simp)
      | some result =>
          rw [hsol, Option.some.injEq, Round.replied.injEq] at h
          rw [← h.1, solBytPag_server server result.1 conn result.2.1 heap packet result.2.2 hsol]
  | OP_ME_ALMBYTPAG =>
      simp only [hop] at h
      cases rest with
      | nil => exact absurd h (by simp)
      | cons data rest =>
          simp only [Option.some.injEq, Round.replied.injEq] at h
          rw [← h.1]
          exact almBytPag_pageTable server conn heap packet heapData data
  | _ => simp [hop] at h

end Memoria

end Esther
