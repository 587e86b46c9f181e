import Esther.Theory.Partition
import Esther.Theory.Requests

/-!
# Loading a Program

What is in a process's pages once `planificacion` has admitted it and the memory
server has handled what was sent.

The kernel asks for the pages of the code and of the stack in one request, and then
stores the code page by page. The number of pages is an `int` at the kernel and a
16-bit field on the wire, and the size of the last page is the remainder of the code
size by the page size. That remainder is zero when the code fills its pages exactly,
and a store without a size is rejected, so then the last page is never stored.

The kernel's packets are followed through the server (`Outcome`): the first one
changes the page table, every pair after it writes one page's bytes at the start of
one frame, and the pair with the stack index, which is empty, is rejected. What is
left is a statement about writes to different frames.

The server is given the packets whole. A payload of exactly `BUFFER_CAPACITY` bytes,
which a page of that size is, need not be received so (`receivePackets_raw`); how the
bytes of a packet get across is not followed here.

## Main definitions

* `Outcome`: What the server makes of a list of packets.
* `loadedMain`: Main memory after the pages of the code.
* `Loaded`, `OthersUntouched`: The code is there, and nothing else has changed.
* `Loadable`: The condition under which that is so.

## Theorems

* `outcome_codePackets`: The stores of the loop.
* `admitir_wire`: The packets an admission sends.
* `loading_lossless_iff`: Loading is lossless exactly for what is loadable.
* `full_page_not_loaded`: A code of exactly one page.
-/

namespace Esther

namespace Memoria

open Cells Serial

/-- The server can handle the packets, on any connection, and comes out in one
    state. -/
def Outcome (server : ServerState) (packets : List Packet) (server' : ServerState) : Prop :=
  (∀ conn, ∃ conn', Handles server conn packets server' conn')
    ∧ ∀ conn conn' other, Handles server conn packets other conn' → other = server'

theorem outcome_nil (server : ServerState) : Outcome server [] server := by
  refine ⟨fun conn => ⟨conn, Handles.done server conn⟩, fun conn conn' other h => ?_⟩
  cases h with
  | done => rfl
  | round =>
      rename_i hround _
      exact absurd hround (by simp [cliThread])

theorem outcome_unique (server a b : ServerState) (packets : List Packet)
    (ha : Outcome server packets a) (hb : Outcome server packets b) : a = b := by
  let conn : Connection := { header := protocolHeader .KERNEL .OP_HANDSHAKE, buffer := fun _ => 0 }
  rcases ha.1 conn with ⟨conn', hconn'⟩
  exact hb.2 conn conn' a hconn'

/-- A round whose effect on the server does not depend on what lies behind the
    payloads. -/
theorem outcome_round (server server₁ server' : ServerState) (packets rest : List Packet)
    (hround : ∀ conn heap heapData, ∃ conn₁ reply,
      cliThread server conn heap heapData packets = some (.replied server₁ conn₁ reply rest))
    (hne : packets ≠ []) (hrest : Outcome server₁ rest server') :
    Outcome server packets server' := by
  refine ⟨fun conn => ?_, fun conn conn' other h => ?_⟩
  · rcases hround conn (fun _ => 0) (fun _ => 0) with ⟨conn₁, reply, heq⟩
    rcases hrest.1 conn₁ with ⟨conn', hconn'⟩
    exact ⟨conn', Handles.round _ _ _ _ _ _ _ _ _ _ reply heq hconn'⟩
  · cases h with
    | done => exact absurd rfl hne
    | round _ _ _ _ _ _ heap heapData _ _ reply heq hothers =>
        rcases hround conn heap heapData with ⟨conn₁, reply₁, heq₁⟩
        rw [heq₁, Option.some.injEq, Round.replied.injEq] at heq
        rcases heq with ⟨rfl, rfl, rfl, rfl⟩
        exact hrest.2 _ _ _ hothers

/-- A request for pages. -/
theorem outcome_iniPro (server server' : ServerState) (packet : Packet) (rest : List Packet)
    (pages : Int) (hop : packet.header.opcode = .OP_ME_INIPRO) (hpay : packet.payload = encH pages)
    (hrest : Outcome
      { server with pageTable := (setPages server.pageTable packet.usrpid (toShort pages)).1 }
      rest server') : Outcome server (packet :: rest) server' := by
  refine outcome_round _ _ _ _ _ (fun conn heap heapData => ?_) (List.cons_ne_nil _ _) hrest
  have hpages : unpacki16 (packet.pointer heap) 0 = toShort pages := by
    have hreads := pointer_reads packet heap
    rw [hpay] at hreads
    exact unpacki16_of_reads _ 0 pages hreads
  refine ⟨(iniPro server conn heap packet).2.1, (iniPro server conn heap packet).2.2, ?_⟩
  simp only [cliThread, hop, iniPro, hpages]

/-- A store at the start of a page writes its bytes there, if there are any. -/
theorem almBytPag_write (server : ServerState) (conn : Connection) (heap : Buf) (packet : Packet)
    (heapData : Buf) (data : Packet) (page : Int)
    (hpay : packet.payload = encArgs [.h page, .h 0, .h data.payload.length])
    (hshort : data.payload.length < 2 ^ 15) :
    (almBytPag server conn heap packet heapData data).1
      = { server with
          main := write server.main
            (getFrame server.pageTable data.usrpid (toShort page) * server.marcoSize)
            data.payload } := by
  rcases request_of_payload packet heap page 0 data.payload.length hpay with
    ⟨hpage, hoffset, hsize⟩
  rw [toShort_of_short _ (short_of_length _ hshort)] at hsize
  rw [toShort_of_short 0 (by simp [Short])] at hoffset
  by_cases hempty : data.payload = []
  · rw [almBytPag_rejected server conn heap packet heapData data
      (Or.inr (by rw [hsize, hempty]; rfl)), hempty]
    rfl
  · -- Byte by byte: the frame holds what the second packet carries.
    have hpos : 0 < data.payload.length := List.length_pos_iff.mpr hempty
    rw [almBytPag_accepted server conn heap packet heapData data (by omega) (by omega), hpage,
      hoffset, hsize]
    simp only [ServerState.mk.injEq, true_and]
    funext c
    rw [setBytes_apply _ _ _ _ _ _ (le_refl 0) (by omega), write_apply, Int.add_zero]
    by_cases hin : getFrame server.pageTable data.usrpid (toShort page) * server.marcoSize ≤ c
        ∧ c < getFrame server.pageTable data.usrpid (toShort page) * server.marcoSize
          + data.payload.length
    · rw [if_pos hin, if_pos hin, Packet.pointer, write_apply, if_pos (by omega), Int.sub_zero]
      rw [List.getD_eq_getElem?_getD, List.getD_eq_getElem?_getD,
        List.getElem?_eq_getElem (by omega), Option.getD_some, Option.getD_some]
    · rw [if_neg hin, if_neg hin]

/-- The same, for the two packets. -/
theorem outcome_store (server server' : ServerState) (packet data : Packet) (rest : List Packet)
    (page : Int) (hop : packet.header.opcode = .OP_ME_ALMBYTPAG)
    (hpay : packet.payload = encArgs [.h page, .h 0, .h data.payload.length])
    (hshort : data.payload.length < 2 ^ 15)
    (hrest : Outcome { server with
        main := write server.main
          (getFrame server.pageTable data.usrpid (toShort page) * server.marcoSize) data.payload }
      rest server') : Outcome server (packet :: data :: rest) server' := by
  refine outcome_round _ _ _ _ _ (fun conn heap heapData => ?_) (List.cons_ne_nil _ _) hrest
  refine ⟨(almBytPag server conn heap packet heapData data).2.1,
    (almBytPag server conn heap packet heapData data).2.2, ?_⟩
  simp only [cliThread, hop]
  rw [almBytPag_write server conn heap packet heapData data page hpay hshort]

/-- A store that announces no bytes. -/
theorem outcome_emptyStore (server server' : ServerState) (packet data : Packet)
    (rest : List Packet) (page : Int) (hop : packet.header.opcode = .OP_ME_ALMBYTPAG)
    (hpay : packet.payload = encArgs [.h page, .h 0, .h 0]) (hrest : Outcome server rest server') :
    Outcome server (packet :: data :: rest) server' := by
  refine outcome_round _ _ _ _ _ (fun conn heap heapData => ?_) (List.cons_ne_nil _ _) hrest
  have hsize := (request_of_payload packet heap page 0 0 hpay).2.2
  rw [toShort_of_short 0 (by simp [Short])] at hsize
  refine ⟨(almBytPag server conn heap packet heapData data).2.1,
    (almBytPag server conn heap packet heapData data).2.2, ?_⟩
  simp only [cliThread, hop]
  rw [almBytPag_rejected server conn heap packet heapData data (Or.inr (by rw [hsize]))]

end Memoria

namespace Kernel

open Cells Serial Memoria

/-- The bytes of one page of the code. -/
def pageSlice (config : Config) (code : List UInt8) (pagesCode pag : Int) : List UInt8 :=
  (code.drop (pag * config.pageSize).toNat).take (pageBytes config code.length pagesCode pag).toNat

/-- The packets of the loop over the pages of the code. -/
def codePackets (config : Config) (r : Residue) (pcb : Pcb) (code : List UInt8) :
    Nat → Int → Int → List Packet
  | 0, _, _ => []
  | n + 1, pag, tam =>
      let size := pageBytes config code.length pcb.pagesCode pag
      let header := { protocolHeader .KERNEL .OP_ME_ALMBYTPAG with usrpid := byte pcb.idProcess }
      packed r header [.h pag, .h 0, .h size]
        :: { header := header, payload := (code.drop tam.toNat).take size.toNat }
        :: codePackets config r pcb code n (pag + 1) (tam + size)

/-- Where the loop stores a page. -/
def pageBase (config : Config) (table : PageTable) (pid pag : Int) : Int :=
  getFrame table pid (toShort pag) * config.pageSize

/-- Main memory after `n` pages of the code have been stored, from page `pag` on. -/
def loadedMain (config : Config) (table : PageTable) (pid : Int) (code : List UInt8)
    (pagesCode : Int) : Nat → Int → Buf → Buf
  | 0, _, main => main
  | n + 1, pag, main =>
      loadedMain config table pid code pagesCode n (pag + 1)
        (write main (pageBase config table pid pag) (pageSlice config code pagesCode pag))

theorem packed_payload (r : Residue) (header : Header) (args : List Arg) :
    (packed r header args).payload = encArgs args :=
  protocolPacket_serialPack _ _ _ _ (serialPack_eq _ _ _)

theorem pageBytes_le (config : Config) (size : Nat) (pagesCode pag : Int) :
    pageBytes config size pagesCode pag ≤ config.pageSize := by
  have hmod := Int.emod_lt_of_pos (size : Int) config.pageSizePos
  unfold pageBytes
  split
  · exact le_refl _
  · omega

/-- A page is as long as the kernel says, as long as it is a page of the code. -/
theorem pageSlice_length (config : Config) (code : List UInt8) (pagesCode pag : Int)
    (hlo : 0 ≤ pag) (hhi : pag < pagesCode) (hpages : pagesCode ≤ codePages config code.length) :
    ((pageSlice config code pagesCode pag).length : Int)
      = pageBytes config code.length pagesCode pag := by
  have hpos := config.pageSizePos
  have hmod := Int.emod_nonneg (code.length : Int) (by omega : config.pageSize ≠ 0)
  have hdiv := Int.mul_ediv_add_emod (code.length : Int) config.pageSize
  have hmul : 0 ≤ pag * config.pageSize := Int.mul_nonneg hlo (by omega)
  -- The pages before the last one are full.
  have hlast : (pagesCode - 1) * config.pageSize + code.length % config.pageSize ≤ code.length := by
    have hle : pagesCode - 1 ≤ code.length / config.pageSize := by
      unfold codePages at hpages
      split at hpages
      · omega
      · omega
    have hle' := Int.mul_le_mul_of_nonneg_right hle (by omega : 0 ≤ config.pageSize)
    rw [Int.mul_comm (code.length / config.pageSize)] at hle'
    omega
  have hbytes : 0 ≤ pageBytes config code.length pagesCode pag := by
    unfold pageBytes
    split
    · omega
    · exact hmod
  have hfit : pag * config.pageSize + pageBytes config code.length pagesCode pag ≤ code.length := by
    unfold pageBytes
    split
    · rename_i hfull
      have hle := Int.mul_le_mul_of_nonneg_right (by omega : pag + 1 ≤ pagesCode - 1)
        (by omega : 0 ≤ config.pageSize)
      rw [Int.add_mul, Int.one_mul] at hle
      omega
    · obtain rfl : pag = pagesCode - 1 := by omega
      exact hlast
  rw [pageSlice, List.length_take, List.length_drop]
  omega

/-- The stores of the loop: one write for every page. -/
theorem outcome_codePackets (config : Config) (r : Residue) (pcb : Pcb) (code : List UInt8)
    (hcap : config.pageSize ≤ bufferCapacity)
    (hpages : pcb.pagesCode ≤ codePages config code.length) (server' : ServerState)
    (rest : List Packet) (n : Nat) (pag : Int) (hlo : 0 ≤ pag) (hn : 0 < n → pag + n ≤ pcb.pagesCode)
    (server : ServerState) (hsize : server.marcoSize = config.pageSize)
    (hrest : Outcome { server with
        main := loadedMain config server.pageTable (byte pcb.idProcess).toNat code pcb.pagesCode n
          pag server.main } rest server') :
    Outcome server (codePackets config r pcb code n pag (pag * config.pageSize) ++ rest)
      server' := by
  induction n generalizing pag server with
  | zero => exact hrest
  | succ n ih =>
      have hn := hn (Nat.succ_pos n)
      have hlen := pageSlice_length config code pcb.pagesCode pag hlo (by omega) hpages
      have hle := pageBytes_le config code.length pcb.pagesCode pag
      unfold bufferCapacity at hcap
      rw [codePackets, List.cons_append, List.cons_append]
      -- The first page is stored, and the induction is over the pages left.
      refine outcome_store server server' _ _ _ pag rfl ?_ ?_ ?_
      · rw [packed_payload]
        change encArgs [.h pag, .h 0, .h (pageBytes config code.length pcb.pagesCode pag)]
          = encArgs [.h pag, .h 0, .h (pageSlice config code pcb.pagesCode pag).length]
        rw [hlen]
      · change (pageSlice config code pcb.pagesCode pag).length < 2 ^ 15
        omega
      · -- The offset into the code is that of the next page, unless this was the last one.
        have hnext : codePackets config r pcb code n (pag + 1)
              (pag * config.pageSize + pageBytes config code.length pcb.pagesCode pag)
            = codePackets config r pcb code n (pag + 1) ((pag + 1) * config.pageSize) := by
          cases n with
          | zero => rfl
          | succ n =>
              have hfull : pageBytes config code.length pcb.pagesCode pag = config.pageSize := by
                unfold pageBytes
                rw [if_pos (by omega)]
              rw [hfull, Int.add_mul, Int.one_mul]
        rw [hnext]
        refine ih (pag + 1) (by omega) (by omega) _ hsize ?_
        rw [hsize] at hrest ⊢
        exact hrest

/-- The packets of the loop are all that it sends. -/
theorem storeCode_wire (config : Config) (r : Residue) (pcb : Pcb) (code : List UInt8)
    (k k' : State) (n : Nat) (pag tam : Int)
    (h : storeCode config r pcb code k n pag tam = some k') :
    k'.memfd = k.memfd
      ∧ k'.wire k.memfd = k.wire k.memfd ++ codePackets config r pcb code n pag tam := by
  induction n generalizing k pag tam with
  | zero =>
      rw [storeCode, Option.some.injEq] at h
      rw [← h]
      exact ⟨rfl, (List.append_nil _).symm⟩
  | succ n ih =>
      simp only [storeCode] at h
      split at h
      · rename_i packet data hstore
        unfold storePage at hstore
        split at hstore
        · exact absurd hstore (by simp)
        · rw [Option.some.injEq, Prod.mk.injEq] at hstore
          rcases hstore with ⟨rfl, rfl⟩
          rcases ih _ _ _ h with ⟨hmem, hwire⟩
          refine ⟨hmem, hwire.trans ?_⟩
          simp [State.send, codePackets]
      · exact absurd h (by simp)

/-- What an admission sends to the memory server. -/
def loadPackets (config : Config) (r : Residue) (pcb : Pcb) (code : List UInt8) : List Packet :=
  let ini := { protocolHeader .KERNEL .OP_ME_INIPRO with usrpid := byte pcb.idProcess }
  let alm := { protocolHeader .KERNEL .OP_ME_ALMBYTPAG with usrpid := byte pcb.idProcess }
  let loaded := admitted config pcb code
  let s := serialPackStack pcb.stack r.buffer 0
  packed r ini [.h (requestedPages config code.length)]
    :: (codePackets config r loaded code loaded.pagesCode.toNat 0 0
      ++ [packed r alm [.h pcb.stackPointer, .h 0, .h pcb.stack.length],
        protocolPacket alm s.1 s.2])

/-- An admission sends these packets to the memory server. -/
theorem admitir_wire (config : Config) (k k' : State) (r : Residue) (res : Int) (pcb : Pcb)
    (pcbNew : List Pcb) (code : List UInt8) (codesMs : List (List UInt8))
    (hnew : k.pcbNew = pcb :: pcbNew) (hcodes : k.codesMs = code :: codesMs)
    (hlevel : (k.pcbReady.length + k.pcbExec.length + k.pcbBlock.length : Int) < k.multipgLevel)
    (hres : res ≠ 0) (h : admitir config k r res = some k') :
    k'.memfd = k.memfd ∧ k'.cpuConectadas = k.cpuConectadas
      ∧ k'.wire k.memfd = k.wire k.memfd ++ loadPackets config r pcb code := by
  simp only [admitir, hnew, hcodes, if_pos hlevel, if_pos hres] at h
  split at h
  · rename_i k₁ hstore
    rcases storeCode_wire _ _ _ _ _ _ _ _ _ hstore with ⟨hmem, hwire⟩
    rcases storeCode_eq _ _ _ _ _ _ _ _ _ hstore with ⟨w, hk₁⟩
    -- After the text comes the packet of the stack.
    simp only [storeStack] at h
    split at h
    · exact absurd h (by simp)
    · rw [Option.some.injEq] at h
      rw [← h]
      refine ⟨hmem, by rw [hk₁]; rfl, ?_⟩
      have hmem' : k₁.memfd = k.memfd := hmem
      simp only [State.send, hmem', Function.update_self] at hwire ⊢
      rw [hwire]
      simp [loadPackets, admitted]
  · exact absurd h (by simp)

/-- The CPUs have descriptors of their own. -/
theorem despachar_wire (r : Residue) (k k' : State) (ready : List Pcb) (cpus : List Client)
    (fd : Int) (hcpus : ∀ cpu ∈ cpus, cpu.clientID ≠ fd)
    (h : despachar r k ready cpus = some k') : k'.wire fd = k.wire fd := by
  have hrule := despachar_rule r
    (fun u _ cpus => u.wire fd = k.wire fd ∧ ∀ cpu ∈ cpus, cpu.clientID ≠ fd)
    (fun u pcb ready cpu cpus packet _ hu =>
      ⟨(Function.update_of_ne (Ne.symm (hu.2 cpu List.mem_cons_self)) _ _).trans hu.1,
        fun other hother => hu.2 other (List.mem_cons_of_mem _ hother)⟩)
    k k' ready cpus ⟨rfl, hcpus⟩ h
  rcases hrule with ⟨_, _, _, hwire, _⟩
  exact hwire

theorem toInt_le (i : Int) (h : 0 ≤ i) : toInt i ≤ i := by
  rw [toInt, Int.bmod_def]
  split <;> omega

theorem codePages_nonneg (config : Config) (size : Nat) : 0 ≤ codePages config size := by
  have hdiv := Int.ediv_nonneg (Int.natCast_nonneg size) (le_of_lt config.pageSizePos)
  unfold codePages
  split
  · omega
  · omega

/-- The kernel never takes the code for longer than it is. -/
theorem pagesCode_le (config : Config) (pcb : Pcb) (code : List UInt8)
    (hstack : 0 ≤ config.stackSize) :
    (admitted config pcb code).pagesCode ≤ codePages config code.length := by
  have hnonneg := codePages_nonneg config code.length
  have hle := toInt_le (codePages config code.length + config.stackSize) (by omega)
  simp only [admitted, requestedPages]
  omega

/-- The page table after the pages have been granted. -/
def grantedTable (config : Config) (table : PageTable) (pid : Int) (code : List UInt8) : PageTable :=
  (setPages table pid (toShort (requestedPages config code.length))).1

/-- The server once it has handled all of it. -/
theorem outcome_loadPackets (config : Config) (r : Residue) (pcb : Pcb) (code : List UInt8)
    (hcap : config.pageSize ≤ bufferCapacity) (hstack : 0 ≤ config.stackSize)
    (hempty : pcb.stack = []) (server : ServerState) (hsize : server.marcoSize = config.pageSize) :
    Outcome server (loadPackets config r pcb code)
      { server with
        pageTable := grantedTable config server.pageTable (byte pcb.idProcess).toNat code
        main := loadedMain config
          (grantedTable config server.pageTable (byte pcb.idProcess).toNat code)
          (byte pcb.idProcess).toNat code (admitted config pcb code).pagesCode
          (admitted config pcb code).pagesCode.toNat 0 server.main } := by
  have hpages := pagesCode_le config pcb code hstack
  refine outcome_iniPro server _ _ _ (requestedPages config code.length) rfl ?_ ?_
  · rw [packed_payload]
    exact List.append_nil _
  have hloop := fun server' rest => outcome_codePackets config r (admitted config pcb code) code hcap
    hpages server' rest (admitted config pcb code).pagesCode.toNat 0 (le_refl 0) (by omega)
  simp only [Int.zero_mul] at hloop
  refine hloop _ _ _ hsize ?_
  -- The stack index of a new process is empty.
  rw [hempty]
  refine outcome_emptyStore _ _ _ _ _ pcb.stackPointer rfl ?_ (outcome_nil _)
  exact packed_payload _ _ _

/-- A cell is among those the loop stores a page in. -/
def InPage (config : Config) (table : PageTable) (pid : Int) (code : List UInt8)
    (pagesCode pag c : Int) : Prop :=
  pageBase config table pid pag ≤ c
    ∧ c < pageBase config table pid pag + (pageSlice config code pagesCode pag).length

/-- The stores leave all other cells alone. -/
theorem loadedMain_of_notMem (config : Config) (table : PageTable) (pid : Int) (code : List UInt8)
    (pagesCode : Int) (n : Nat) (pag : Int) (main : Buf) (c : Int)
    (hout : ∀ p, pag ≤ p → p < pag + n → ¬ InPage config table pid code pagesCode p c) :
    loadedMain config table pid code pagesCode n pag main c = main c := by
  induction n generalizing pag main with
  | zero => rfl
  | succ n ih =>
      have hfirst := hout pag (le_refl pag) (by omega)
      simp only [InPage] at hfirst
      rw [loadedMain, ih (pag + 1) _ fun p hlo hhi => hout p (by omega) (by omega)]
      exact write_of_notMem _ _ _ _ (by omega)

/-- What a page was stored with is there, if no later store goes over it. -/
theorem loadedMain_of_mem (config : Config) (table : PageTable) (pid : Int) (code : List UInt8)
    (pagesCode : Int) (n : Nat) (pag : Int) (main : Buf) (p : Int) (o : Nat) (hlo : pag ≤ p)
    (hhi : p < pag + n) (ho : o < (pageSlice config code pagesCode p).length)
    (hlater : ∀ p', p < p' → p' < pag + n →
      ¬ InPage config table pid code pagesCode p' (pageBase config table pid p + o)) :
    (pageSlice config code pagesCode p)[o]?
      = some (loadedMain config table pid code pagesCode n pag main
          (pageBase config table pid p + o)) := by
  induction n generalizing pag main with
  | zero => exact absurd hhi (by omega)
  | succ n ih =>
      rw [loadedMain]
      by_cases hp : pag = p
      · subst hp
        -- The page is stored now, and the later pages do not reach the cell.
        rw [loadedMain_of_notMem config table pid code pagesCode n (pag + 1) _ _
          fun p' hlo' hhi' => hlater p' (by omega) (by omega), write_apply]
        rw [if_pos (by omega), List.getElem?_eq_getElem ho, List.getD_eq_getElem?_getD,
          List.getElem?_eq_getElem (by omega), Option.getD_some]
        congr 2
        omega
      · exact ih (pag + 1) _ (by omega) (by omega) fun p' hlt hhi' => hlater p' hlt (by omega)

/-- The process owns nothing, and the pages are granted. -/
structure Granted (config : Config) (table : PageTable) (pid : Int) (code : List UInt8) : Prop where
  none : ∀ row ∈ table, row.pid ≠ pid
  res : (setPages table pid (toShort (requestedPages config code.length))).2 ≠ 0

/-- What the process owns then is as many pages as the request has on the wire. -/
theorem mapped_grantedTable (config : Config) (table : PageTable) (pid : Int) (code : List UInt8)
    (h : Granted config table pid code) (page : Int) :
    (∃ i, Mapped (grantedTable config table pid code) pid page i)
      ↔ 0 ≤ page ∧ page < toShort (requestedPages config code.length) := by
  rcases setPages_granted _ _ _ h.res with ⟨hpos, hpages, hfree, htable⟩
  have hof := pagesOf_assignPages_self pid table
    (toShort (requestedPages config code.length)).toNat h.none (by omega)
  have hmem := mem_pagesOf (grantedTable config table pid code) pid page
  have hcount := mem_countdown (toShort (requestedPages config code.length)).toNat page
  unfold grantedTable at hmem ⊢
  rw [htable, hof, hcount] at hmem
  simp only [Mapped, hpos, true_and]
  rw [htable, ← hmem]
  omega

/-- The frame of a page is one the table maps to it. -/
theorem frame_grantedTable (config : Config) (table : PageTable) (pid : Int) (code : List UInt8)
    (h : Granted config table pid code) (page : Int) (hlo : 0 ≤ page)
    (hhi : page < toShort (requestedPages config code.length)) :
    ∃ i : Nat, getFrame (grantedTable config table pid code) pid page = i
      ∧ Mapped (grantedTable config table pid code) pid page i := by
  rcases (mapped_grantedTable config table pid code h page).mpr ⟨hlo, hhi⟩ with ⟨i, hi⟩
  rcases setPages_granted _ _ _ h.res with ⟨-, -, hfree, -⟩
  refine getFrame_of_mapped _ _ _ i hi hlo ?_
  have hle := freeRows_le_length table
  unfold grantedTable
  rw [setPages_length]
  omega

/-- The stores of one page do not touch the frame of a row that is not this page's. -/
theorem not_inPage (config : Config) (table : PageTable) (pid : Int) (code : List UInt8)
    (h : Granted config table pid code) (pagesCode : Int)
    (hpages : pagesCode ≤ codePages config code.length)
    (hfit : pagesCode ≤ toShort (requestedPages config code.length)) (p : Int) (hlo : 0 ≤ p)
    (hhi : p < pagesCode) (i : Nat)
    (hrow : (grantedTable config table pid code)[i]? ≠ some { pid := pid, page := p }) (o : Int)
    (ho : 0 ≤ o) (ho' : o < config.pageSize) :
    ¬ InPage config (grantedTable config table pid code) pid code pagesCode p
      (i * config.pageSize + o) := by
  have hshort := short_toShort (requestedPages config code.length)
  simp only [Short] at hshort
  have hp : toShort p = p := toShort_of_short p ⟨by omega, by omega⟩
  rcases frame_grantedTable config table pid code h p hlo (by omega) with ⟨j, hj, hmap⟩
  have hlen := pageSlice_length config code pagesCode p hlo hhi hpages
  have hle := pageBytes_le config code.length pagesCode p
  rintro ⟨hge, hlt⟩
  simp only [pageBase, hp, hj] at hge hlt
  -- A cell of the page is in its frame, which is the frame of this row.
  have hij : (i : Int) = j := frame_cell_inj config.pageSize i j o
    (i * config.pageSize + o - j * config.pageSize) ⟨ho, ho'⟩ (by omega) (by omega)
  rw [Int.ofNat_inj.mp hij] at hrow
  exact hrow hmap.2

/-- A page after all the stores: its bytes, and past their end what was there. -/
theorem loadedMain_page (config : Config) (table : PageTable) (pid : Int) (code : List UInt8)
    (h : Granted config table pid code) (pagesCode : Int)
    (hpages : pagesCode ≤ codePages config code.length)
    (hfit : pagesCode ≤ toShort (requestedPages config code.length)) (main : Buf) (p o : Nat)
    (hp : (p : Int) < pagesCode) (ho : (o : Int) < config.pageSize) :
    loadedMain config (grantedTable config table pid code) pid code pagesCode pagesCode.toNat 0 main
        (getFrame (grantedTable config table pid code) pid p * config.pageSize + o)
      = ((pageSlice config code pagesCode p)[o]?).getD
        (main (getFrame (grantedTable config table pid code) pid p * config.pageSize + o)) := by
  have hshort := short_toShort (requestedPages config code.length)
  simp only [Short] at hshort
  have hbase : pageBase config (grantedTable config table pid code) pid p
      = getFrame (grantedTable config table pid code) pid p * config.pageSize := by
    rw [pageBase, toShort_of_short p ⟨by omega, by omega⟩]
  rcases frame_grantedTable config table pid code h p (by omega) (by omega) with ⟨i, hi, hmap⟩
  -- The other pages are in other frames.
  have hother : ∀ p' : Int, 0 ≤ p' → p' < pagesCode → p' ≠ p →
      ¬ InPage config (grantedTable config table pid code) pid code pagesCode p'
        (i * config.pageSize + o) := by
    intro p' hlo hhi hne
    refine not_inPage config table pid code h pagesCode hpages hfit p' hlo hhi i ?_ o (by omega) ho
    intro hrow
    have hsame := hrow.symm.trans hmap.2
    rw [Option.some.injEq, Row.mk.injEq] at hsame
    exact hne hsame.2
  by_cases hin : o < (pageSlice config code pagesCode p).length
  · have hmem := loadedMain_of_mem config (grantedTable config table pid code) pid code pagesCode
      pagesCode.toNat 0 main p o (by omega) (by omega) hin ?_
    · rw [hmem, hbase, Option.getD_some]
    · intro p' hlt hhi
      rw [hbase, hi]
      exact hother p' (by omega) (by omega) (by omega)
  · rw [List.getElem?_eq_none (by omega), Option.getD_none]
    refine loadedMain_of_notMem _ _ _ _ _ _ _ _ _ fun p' hlo hhi => ?_
    by_cases hself : p' = p
    · rw [hself]
      rintro ⟨-, hlt⟩
      rw [hbase] at hlt
      omega
    · rw [hi]
      exact hother p' hlo (by omega) hself

/-- The code is in the pages of the process, one page after another. -/
def Loaded (server : ServerState) (pid pagesCode : Int) (code : List UInt8) : Prop :=
  (∀ page, 0 ≤ page → page < pagesCode → ∃ i, Mapped server.pageTable pid page i)
    ∧ (paged server.main (fun p => getFrame server.pageTable pid p * server.marcoSize)
        server.marcoSize.toNat pagesCode.toNat).take code.length = code

/-- Main memory is the same in the frames of all other processes. -/
def OthersUntouched (server server' : ServerState) (pid : Int) : Prop :=
  ∀ (i : Nat) (row : Row), server'.pageTable[i]? = some row → row.pid ≠ 0 → row.pid ≠ pid →
    ∀ o, 0 ≤ o → o < server.marcoSize →
      server'.main (i * server.marcoSize + o) = server.main (i * server.marcoSize + o)

/-- The page the stores leave out holds the bytes it should already. -/
def LastPageThere (config : Config) (server : ServerState) (pid : Int) (code : List UInt8) : Prop :=
  slice server.main
      (getFrame (grantedTable config server.pageTable pid code) pid
        (codePages config code.length - 1) * config.pageSize) config.pageSize.toNat
    = code.drop ((codePages config code.length - 1) * config.pageSize).toNat

/-- The number of pages fits an `int`, and as a 16-bit field it still covers the code;
    and the code ends inside a page, or its last page is there by chance. -/
def Loadable (config : Config) (server : ServerState) (pid : Int) (code : List UInt8) : Prop :=
  codePages config code.length + config.stackSize < 2 ^ 31
    ∧ codePages config code.length ≤ toShort (codePages config code.length + config.stackSize)
    ∧ ((code.length : Int) % config.pageSize ≠ 0 ∨ LastPageThere config server pid code)

/-- The server after an admission. -/
def loadedServer (config : Config) (server : ServerState) (pid pagesCode : Int)
    (code : List UInt8) : ServerState :=
  { server with
    pageTable := grantedTable config server.pageTable pid code
    main := loadedMain config (grantedTable config server.pageTable pid code) pid code pagesCode
      pagesCode.toNat 0 server.main }

/-- Only frames of the process are stored into. -/
theorem othersUntouched_loadedServer (config : Config) (server : ServerState) (pid : Int)
    (code : List UInt8) (h : Granted config server.pageTable pid code)
    (hsize : server.marcoSize = config.pageSize) (pagesCode : Int)
    (hpages : pagesCode ≤ codePages config code.length)
    (hfit : pagesCode ≤ toShort (requestedPages config code.length)) :
    OthersUntouched server (loadedServer config server pid pagesCode code) pid := by
  intro i row hrow _ hother o ho ho'
  rw [hsize] at ho' ⊢
  refine loadedMain_of_notMem _ _ _ _ _ _ _ _ _ fun p hlo hhi => ?_
  refine not_inPage config server.pageTable pid code h pagesCode hpages hfit p hlo (by omega) i ?_ o
    ho ho'
  intro hmine
  have hsame := hrow.symm.trans hmine
  rw [Option.some.injEq, Row.ext_iff] at hsame
  exact hother hsame.1

/-- How many pages a code takes, with and without a remainder. -/
theorem codePages_mul (config : Config) (size : Nat) :
    ((size : Int) % config.pageSize = 0 → codePages config size * config.pageSize = size)
      ∧ ((size : Int) % config.pageSize ≠ 0 →
        (codePages config size - 1) * config.pageSize + size % config.pageSize = size) := by
  have hdiv := Int.mul_ediv_add_emod (size : Int) config.pageSize
  rw [Int.mul_comm] at hdiv
  unfold codePages
  constructor
  · intro hzero
    rw [if_neg (not_not.mpr hzero), Int.add_zero]
    omega
  · intro hrest
    rw [if_pos hrest, Int.add_sub_cancel]
    exact hdiv

/-- The last page begins inside the code, and the pages reach to its end. -/
theorem codePages_bounds (config : Config) (size : Nat) :
    (codePages config size - 1) * config.pageSize < size
      ∧ size ≤ codePages config size * config.pageSize := by
  have hpos := config.pageSizePos
  have hmul := codePages_mul config size
  have hstep : (codePages config size - 1) * config.pageSize
      = codePages config size * config.pageSize - config.pageSize := by
    rw [Int.sub_mul, Int.one_mul]
  by_cases hzero : (size : Int) % config.pageSize = 0
  · have hfull := hmul.1 hzero
    omega
  · have hpart := hmul.2 hzero
    have hlt := Int.emod_lt_of_pos (size : Int) hpos
    have hnn := Int.emod_nonneg (size : Int) (by omega : config.pageSize ≠ 0)
    omega

/-- A byte of a page, as a byte of the code. -/
theorem pageSlice_getElem? (config : Config) (code : List UInt8) (pagesCode : Int) (p o : Nat)
    (ho : o < (pageSlice config code pagesCode p).length) :
    (pageSlice config code pagesCode p)[o]? = code[p * config.pageSize.toNat + o]? := by
  have hstart : ((p : Int) * config.pageSize).toNat = p * config.pageSize.toNat := by
    have hpos := config.pageSizePos
    rw [Int.toNat_mul (by omega) (by omega), Int.toNat_natCast]
  unfold pageSlice at ho ⊢
  rw [List.length_take] at ho
  rw [List.getElem?_take_of_lt (by omega), List.getElem?_drop, hstart]

/-- What is loaded takes all the pages of the code. -/
theorem pagesCode_eq_of_loaded (config : Config) (server : ServerState) (pid : Int) (pcb : Pcb)
    (code : List UInt8) (hcode : 1 ≤ code.length) (hstack : 0 ≤ config.stackSize)
    (hsize : server.marcoSize = config.pageSize)
    (h : Loaded server pid (admitted config pcb code).pagesCode code) :
    (admitted config pcb code).pagesCode = codePages config code.length
      ∧ codePages config code.length + config.stackSize < 2 ^ 31 := by
  have hpos := config.pageSizePos
  have hle := pagesCode_le config pcb code hstack
  have hlen := congrArg List.length h.2
  rw [List.length_take, paged_length, hsize] at hlen
  have hbound := (codePages_bounds config code.length).1
  -- With a page less the code could not be as long as it is.
  have heq : (admitted config pcb code).pagesCode = codePages config code.length := by
    by_contra hne
    have hlt : ((admitted config pcb code).pagesCode.toNat : Int)
        ≤ codePages config code.length - 1 := by
      have hnn := codePages_bounds config code.length
      have hq : 0 < codePages config code.length := by
        by_contra hq
        have hmul := Int.mul_le_mul_of_nonneg_right (by omega : codePages config code.length ≤ 0)
          (by omega : 0 ≤ config.pageSize)
        rw [Int.zero_mul] at hmul
        omega
      omega
    have hmul := Int.mul_le_mul_of_nonneg_right hlt (by omega : 0 ≤ config.pageSize)
    have hcast : (((admitted config pcb code).pagesCode.toNat * config.pageSize.toNat : Nat) : Int)
        = (admitted config pcb code).pagesCode.toNat * config.pageSize := by
      rw [Int.natCast_mul, Int.toNat_of_nonneg (by omega : 0 ≤ config.pageSize)]
    omega
  refine ⟨heq, ?_⟩
  -- All the pages are asked for, so their number has not overflowed.
  have hint : toInt (codePages config code.length + config.stackSize)
      = codePages config code.length + config.stackSize := by
    simp only [admitted, requestedPages] at heq
    omega
  have hlt := Int.bmod_lt (x := codePages config code.length + config.stackSize) (m := 2 ^ 32)
    (by omega)
  unfold toInt at hint
  omega

/-- Of what has to be loaded for the code to be there, everything is, except
    perhaps a last page that is full. -/
theorem loaded_iff (config : Config) (server : ServerState) (pid : Int) (code : List UInt8)
    (hcode : 1 ≤ code.length) (h : Granted config server.pageTable pid code)
    (hsize : server.marcoSize = config.pageSize)
    (hfit : codePages config code.length ≤ toShort (requestedPages config code.length)) :
    Loaded (loadedServer config server pid (codePages config code.length) code) pid
        (codePages config code.length) code
      ↔ (code.length : Int) % config.pageSize ≠ 0 ∨ LastPageThere config server pid code := by
  have hpos := config.pageSizePos
  have hnonneg := codePages_nonneg config code.length
  have hbounds := codePages_bounds config code.length
  have hmul := codePages_mul config code.length
  have hpsize : ((config.pageSize.toNat : Nat) : Int) = config.pageSize :=
    Int.toNat_of_nonneg (by omega)
  have hcount : (((codePages config code.length).toNat : Nat) : Int) = codePages config code.length :=
    Int.toNat_of_nonneg hnonneg
  have hpage := loadedMain_page config server.pageTable pid code h (codePages config code.length)
    (le_refl _) hfit server.main
  have hmapped : ∀ page, 0 ≤ page → page < codePages config code.length →
      ∃ i, Mapped (grantedTable config server.pageTable pid code) pid page i := fun page hlo hhi =>
    (mapped_grantedTable config server.pageTable pid code h page).mpr ⟨hlo, by omega⟩
  have htotal : code.length ≤ (codePages config code.length).toNat * config.pageSize.toNat := by
    have hcast : (((codePages config code.length).toNat * config.pageSize.toNat : Nat) : Int)
        = codePages config code.length * config.pageSize := by
      rw [Int.natCast_mul, hcount, hpsize]
    omega
  -- The last page, counted in natural numbers.
  obtain ⟨last, hlastPage⟩ : ∃ last : Nat, (last : Int) = codePages config code.length - 1 :=
    ⟨(codePages config code.length - 1).toNat, by
      have hq : 0 < codePages config code.length := by
        by_contra hq
        rw [show codePages config code.length = 0 by omega, Int.zero_mul] at hbounds
        omega
      omega⟩
  have hstart : ((codePages config code.length - 1) * config.pageSize).toNat
      = last * config.pageSize.toNat := by
    rw [← hlastPage, Int.toNat_mul (by omega) (by omega), Int.toNat_natCast]
  have hstartInt : ((last * config.pageSize.toNat : Nat) : Int)
      = (codePages config code.length - 1) * config.pageSize := by
    rw [Int.natCast_mul, hpsize, hlastPage]
  have hlen : ∀ p : Nat, (p : Int) < codePages config code.length →
      ((pageSlice config code (codePages config code.length) p).length : Int)
        = if (p : Int) < codePages config code.length - 1 then config.pageSize
          else code.length % config.pageSize := fun p hp =>
    pageSlice_length config code _ p (by omega) hp (le_refl _)
  unfold Loaded loadedServer LastPageThere
  simp only [hsize]
  rw [take_paged_iff _ _ _ _ _ (by omega) htotal, hstart, ← hlastPage]
  simp only [and_iff_right hmapped]
  constructor
  · intro hcells
    by_contra hno
    rw [not_or, not_not] at hno
    refine hno.2 (List.ext_getElem? fun k => ?_)
    have hfull := hmul.1 hno.1
    rw [List.getElem?_drop]
    by_cases hk : k < config.pageSize.toNat
    · -- Nothing has been stored in the last page.
      have hempty := hlen last (by omega)
      rw [if_neg (by omega), hno.1] at hempty
      have hnone : (pageSlice config code (codePages config code.length) last)[k]? = none :=
        List.getElem?_eq_none (by omega)
      rw [hcells last k hk (by rw [Int.sub_mul, Int.one_mul] at hstartInt; omega),
        hpage last k (by omega) (by omega), hnone, Option.getD_none,
        List.getElem?_eq_getElem (by rw [slice_length]; exact hk), slice_getElem]
    · rw [List.getElem?_eq_none (by rw [slice_length]; omega), List.getElem?_eq_none]
      rw [Int.sub_mul, Int.one_mul] at hstartInt
      omega
  · intro hlast p o ho hlt
    have hp : (p : Int) < codePages config code.length := by
      by_contra hge
      have hle := Int.mul_le_mul_of_nonneg_right (by omega : codePages config code.length ≤ p)
        (by omega : 0 ≤ config.pageSize)
      have hcast : ((p * config.pageSize.toNat : Nat) : Int) = p * config.pageSize := by
        rw [Int.natCast_mul, hpsize]
      omega
    rw [hpage p o hp (by omega)]
    by_cases hin : o < (pageSlice config code (codePages config code.length) p).length
    · rw [pageSlice_getElem? config code _ p o hin, List.getElem?_eq_getElem hlt, Option.getD_some]
    · -- Past the bytes stored: this is the last page, and it is full.
      have hshort := hlen p hp
      obtain rfl : p = last := by
        split at hshort
        · omega
        · omega
      rw [if_neg (by omega)] at hshort
      have hnone : (pageSlice config code (codePages config code.length) p)[o]? = none :=
        List.getElem?_eq_none (by omega)
      rw [hnone, Option.getD_none]
      rcases hlast with hrest | hthere
      · have hpart := hmul.2 hrest
        omega
      · have hcell := congrArg (fun xs => xs[o]?) hthere
        simp only [List.getElem?_drop] at hcell
        rw [← hcell, List.getElem?_eq_getElem (by rw [slice_length]; exact ho), slice_getElem]

/-- The server after an admission has the code, and nothing else has changed, exactly if
    the code is loadable. -/
theorem loadedServer_iff (config : Config) (server : ServerState) (pid : Int) (pcb : Pcb)
    (code : List UInt8) (hcode : 1 ≤ code.length) (hstack : 0 ≤ config.stackSize)
    (hsize : server.marcoSize = config.pageSize) (h : Granted config server.pageTable pid code) :
    (Loaded (loadedServer config server pid (admitted config pcb code).pagesCode code) pid
          (admitted config pcb code).pagesCode code
        ∧ OthersUntouched server
          (loadedServer config server pid (admitted config pcb code).pagesCode code) pid)
      ↔ Loadable config server pid code := by
  have hnonneg := codePages_nonneg config code.length
  have hint : codePages config code.length + config.stackSize < 2 ^ 31 →
      requestedPages config code.length = codePages config code.length + config.stackSize :=
    fun hlt => toInt_of_lt _ (by omega) hlt
  constructor
  · rintro ⟨hloaded, -⟩
    rcases pagesCode_eq_of_loaded config
      (loadedServer config server pid (admitted config pcb code).pagesCode code) pid pcb code hcode
      hstack hsize hloaded with ⟨heq, hlt⟩
    rw [heq] at hloaded
    have hreq := hint hlt
    have hbounds := (codePages_bounds config code.length).2
    -- The last page of the code is among those granted.
    have hfit : codePages config code.length ≤ toShort (requestedPages config code.length) := by
      have hq : 0 < codePages config code.length := by
        by_contra hq
        rw [show codePages config code.length = 0 by omega, Int.zero_mul] at hbounds
        omega
      have hmap := hloaded.1 (codePages config code.length - 1) (by omega) (by omega)
      have hlast := ((mapped_grantedTable config server.pageTable pid code h _).mp hmap).2
      omega
    refine ⟨hlt, ?_, (loaded_iff config server pid code hcode h hsize hfit).mp hloaded⟩
    rw [← hreq]
    exact hfit
  · rintro ⟨hlt, hfit, hlast⟩
    have hreq := hint hlt
    rw [← hreq] at hfit
    have heq : (admitted config pcb code).pagesCode = codePages config code.length := by
      simp only [admitted, hreq]
      omega
    rw [heq]
    exact ⟨(loaded_iff config server pid code hcode h hsize hfit).mpr hlast,
      othersUntouched_loadedServer config server pid code h hsize _ (le_refl _) hfit⟩

/-- A program waiting for admission has no stack yet. -/
def NewEmpty (k : State) : Prop := ∀ pcb ∈ k.pcbNew, pcb.stack = []

theorem newEmpty_of_subset (k u : State) (hsub : ∀ pcb ∈ u.pcbNew, pcb ∈ k.pcbNew)
    (h : NewEmpty k) : NewEmpty u :=
  fun pcb hpcb => h pcb (hsub pcb hpcb)

theorem newEmpty_endProgram (k : State) (r : Residue) (pcb : Pcb) (code : Int) (h : NewEmpty k) :
    NewEmpty (k.endProgram r pcb code) := by
  rcases endProgram_eq k r pcb code with ⟨w, heq⟩
  rw [heq]
  exact newEmpty_of_subset k _ (fun _ hmem => (List.mem_filter.mp hmem).1) h

theorem newEmpty_endConsolePrograms (r : Residue) (k : State) (pids : List Int) (h : NewEmpty k) :
    NewEmpty (endConsolePrograms r k pids) := by
  induction pids generalizing k with
  | nil => exact h
  | cons pid pids ih =>
      unfold endConsolePrograms
      split
      · split
        · exact ih k h
        · exact ih _ (newEmpty_endProgram k r _ _ h)
      · exact ih k h

theorem newEmpty_planificacion (config : Config) (k u : State) (r : Residue) (res : Int)
    (h : NewEmpty k) (hplan : planificacion config k r res = some u) : NewEmpty u := by
  rcases planificacion_cases config k u r res hplan with ⟨k₁, hadm, n, w, -, rfl⟩
  refine newEmpty_of_subset k _ (fun pcb hpcb => ?_) h
  rcases admitir_cases config k k₁ r res hadm with rfl
    | ⟨_, _, _, _, hnew, -, -, ⟨-, w', rfl⟩ | ⟨-, w', rfl⟩⟩
  · exact hpcb
  · exact hnew ▸ List.mem_cons_of_mem _ hpcb
  · exact hnew ▸ List.mem_cons_of_mem _ hpcb

/-- Every step keeps it so. -/
theorem newEmpty_step (parser : Parser) (config : Config) (k u : State) (e : Residue × Event)
    (hk : NewEmpty k) (h : k.step parser config e = some u) : NewEmpty u := by
  rcases e with ⟨r, event⟩
  cases event with
  | connectConsole fd =>
      obtain rfl := step_connectConsole parser config k u r fd h
      exact hk
  | connectCpu fd =>
      obtain rfl := step_connectCpu parser config k u r fd h
      exact hk
  -- Only here does a process come in, and its stack is empty.
  | newProgram console program =>
      rcases gestionDatosNewPcb_cases parser config k u r program console h with
        ⟨pcb, _, _, -, hstack, -, rfl⟩
      intro other hother
      rcases List.mem_append.mp hother with hold | hnew
      · exact hk other hold
      · rw [List.mem_singleton.mp hnew]
        exact hstack
  | planificacion res => exact newEmpty_planificacion config k u r res hk h
  | destroyConsole client =>
      obtain rfl := step_destroyConsole parser config k u r client h
      exact newEmpty_endConsolePrograms r _ _ hk
  | kill pid =>
      -- A process may leave the queue, which takes no stack from the others.
      rcases step_kill parser config k u r pid h with ⟨-, rfl⟩
      refine newEmpty_of_subset k _ (fun pcb hpcb => ?_) hk
      simp only [terminalKill, killIn] at hpcb
      split at hpcb
      · exact List.mem_of_mem_eraseP hpcb
      · exact hpcb
  | syscall cpu packet siguientes =>
      rcases step_syscall_cases parser config k u r cpu packet siguientes h with
        ⟨-, ⟨-, rfl⟩ | ⟨-, _, -, ⟨-, k₁, hsem, rfl⟩ | ⟨-, k₁, hsem, rfl⟩⟩ | ⟨-, _, _, rfl⟩⟩
      · exact newEmpty_endProgram (k.leaveExec (syscallPid r packet)) r _ _ hk
      · rcases semWait_cases _ _ _ _ hsem with ⟨_, _, -, -, ⟨-, rfl⟩ | ⟨-, rfl⟩⟩
        · exact hk
        · exact hk
      · rcases semSignal_cases _ _ _ _ _ hsem with ⟨_, _, _, _, -, -, -, rfl⟩
        exact hk
      · exact hk

/-- What an admission sends to the memory server, in a run of the kernel. -/
theorem planificacion_wire (config : Config) (k k' : State) (r : Residue) (res : Int) (pcb : Pcb)
    (pcbNew : List Pcb) (code : List UInt8) (codesMs : List (List UInt8))
    (hnew : k.pcbNew = pcb :: pcbNew) (hcodes : k.codesMs = code :: codesMs)
    (hlevel : (k.pcbReady.length + k.pcbExec.length + k.pcbBlock.length : Int) < k.multipgLevel)
    (hres : res ≠ 0) (hcpus : ∀ cpu ∈ k.cpuConectadas, cpu.clientID ≠ k.memfd)
    (h : planificacion config k r res = some k') :
    k'.wire k.memfd = k.wire k.memfd ++ loadPackets config r pcb code := by
  unfold planificacion at h
  split at h
  · rename_i k₁ hadm
    rcases admitir_wire config k k₁ r res pcb pcbNew code codesMs hnew hcodes hlevel hres hadm with
      ⟨-, hcpus', hwire⟩
    rw [despachar_wire r k₁ k' _ _ k.memfd (hcpus' ▸ hcpus) h, hwire]
  · exact absurd h (by simp)

/-- A process is admitted in a round of a run of the kernel, the memory server answers
    with what `set_pages` gives, and handles what the kernel sends, having received every
    packet whole. The code is then in the pages of the process, and all other frames are
    as they were, if and only if the code is loadable. -/
theorem loading_lossless_iff (parser : Parser) (config : Config) (multipgLevel memfd : Int)
    (semInit : List Int) (shared : Nat) (es : List (Residue × Event)) (k k' : State) (r : Residue)
    (res : Int) (pcb : Pcb) (pcbNew : List Pcb) (code : List UInt8) (codesMs : List (List UInt8))
    (server : ServerState)
    (hrun : Transition.run (State.step parser config)
      (State.init multipgLevel memfd semInit shared) es = some k)
    (hnew : k.pcbNew = pcb :: pcbNew) (hcodes : k.codesMs = code :: codesMs)
    (hlevel : (k.pcbReady.length + k.pcbExec.length + k.pcbBlock.length : Int) < k.multipgLevel)
    (hcpus : ∀ cpu ∈ k.cpuConectadas, cpu.clientID ≠ k.memfd)
    (hplan : planificacion config k r res = some k')
    (hsize : server.marcoSize = config.pageSize)
    (hanswer : res = (setPages server.pageTable (byte pcb.idProcess).toNat
      (toShort (requestedPages config code.length))).2)
    (hres : res ≠ 0) (hown : ∀ row ∈ server.pageTable, row.pid ≠ (byte pcb.idProcess).toNat)
    (hcode : 1 ≤ code.length) (hcap : config.pageSize ≤ bufferCapacity)
    (hstack : 1 ≤ config.stackSize) :
    ∃ packets server', k'.wire k.memfd = k.wire k.memfd ++ packets
      ∧ Outcome server packets server'
      ∧ ((Loaded server' (byte pcb.idProcess).toNat (admitted config pcb code).pagesCode code
            ∧ OthersUntouched server server' (byte pcb.idProcess).toNat)
          ↔ Loadable config server (byte pcb.idProcess).toNat code) := by
  -- The stack of the process is empty since it was created.
  have hempty : NewEmpty k :=
    Transition.run_invariant (State.step parser config) NewEmpty
      (fun s e u hs h => newEmpty_step parser config s u e hs h) _ k es
      (fun pcb hpcb => absurd hpcb List.not_mem_nil) hrun
  have hpcb := hempty pcb (hnew ▸ List.mem_cons_self)
  exact ⟨_, _,
    planificacion_wire config k k' r res pcb pcbNew code codesMs hnew hcodes hlevel hres hcpus hplan,
    outcome_loadPackets config r pcb code hcap (by omega) hpcb server hsize,
    loadedServer_iff config server _ pcb code hcode (by omega) hsize ⟨hown, hanswer ▸ hres⟩⟩

/-- A program of one page, exactly, has arrived. -/
theorem waiting_taken :
    (Transition.run (State.step sampleParser sampleConfig) (State.init 3 4 [1] 1)
      (sampleArrival.take 3)).isSome := by
  decide

def waiting : State :=
  (Transition.run (State.step sampleParser sampleConfig) (State.init 3 4 [1] 1)
    (sampleArrival.take 3)).get waiting_taken

def waitingPcb : Pcb := { samplePcb with pagesCode := 0 }

/-- Two frames, both free, and all of main memory zero. -/
def freeFrames : ServerState :=
  { marcoSize := 4, pageTable := getPageTable 2, main := fun _ => 0 }

theorem admission_taken : (planificacion sampleConfig waiting sampleResidue 1).isSome := by
  decide

theorem freeFrames_granted : Granted sampleConfig freeFrames.pageTable 1 [97, 61, 49, 10] :=
  ⟨by decide, by decide⟩

theorem waiting_loading_iff :
    ∃ packets server',
      ((planificacion sampleConfig waiting sampleResidue 1).get admission_taken).wire waiting.memfd
          = waiting.wire waiting.memfd ++ packets
        ∧ Outcome freeFrames packets server'
        ∧ ((Loaded server' (byte waitingPcb.idProcess).toNat
                (admitted sampleConfig waitingPcb [97, 61, 49, 10]).pagesCode [97, 61, 49, 10]
              ∧ OthersUntouched freeFrames server' (byte waitingPcb.idProcess).toNat)
            ↔ Loadable sampleConfig freeFrames (byte waitingPcb.idProcess).toNat
                [97, 61, 49, 10]) :=
  loading_lossless_iff sampleParser sampleConfig 3 4 [1] 1 (sampleArrival.take 3) waiting _
    sampleResidue 1 waitingPcb [] [97, 61, 49, 10] [] freeFrames (Option.some_get waiting_taken).symm
    (by decide) (by decide) (by decide) (by decide)
    (Option.some_get admission_taken).symm rfl (by decide) (by decide) (by decide) (by decide)
    (by decide) (by decide)

/-- The four bytes of a code of one page of four are not stored. -/
theorem full_page_not_loaded :
    ¬ ∀ (parser : Parser) (config : Config) (multipgLevel memfd : Int) (semInit : List Int)
        (shared : Nat) (es : List (Residue × Event)) (k k' : State) (r : Residue) (res : Int)
        (pcb : Pcb) (pcbNew : List Pcb) (code : List UInt8) (codesMs : List (List UInt8))
        (server : ServerState),
      Transition.run (State.step parser config) (State.init multipgLevel memfd semInit shared) es
        = some k →
      k.pcbNew = pcb :: pcbNew → k.codesMs = code :: codesMs →
      (k.pcbReady.length + k.pcbExec.length + k.pcbBlock.length : Int) < k.multipgLevel →
      (∀ cpu ∈ k.cpuConectadas, cpu.clientID ≠ k.memfd) →
      planificacion config k r res = some k' → server.marcoSize = config.pageSize →
      res = (setPages server.pageTable (byte pcb.idProcess).toNat
        (toShort (requestedPages config code.length))).2 →
      res ≠ 0 → (∀ row ∈ server.pageTable, row.pid ≠ (byte pcb.idProcess).toNat) →
      1 ≤ code.length → config.pageSize ≤ bufferCapacity → 1 ≤ config.stackSize →
      ∃ packets server', k'.wire k.memfd = k.wire k.memfd ++ packets
        ∧ Outcome server packets server'
        ∧ Loaded server' (byte pcb.idProcess).toNat (admitted config pcb code).pagesCode code
        ∧ OthersUntouched server server' (byte pcb.idProcess).toNat := by
  intro hall
  have hplan := (Option.some_get admission_taken).symm
  rcases hall sampleParser sampleConfig 3 4 [1] 1 (sampleArrival.take 3) waiting _ sampleResidue 1
    waitingPcb [] [97, 61, 49, 10] [] freeFrames (Option.some_get waiting_taken).symm
    (by decide) (by decide) (by decide) (by decide)
    hplan rfl (by decide) (by decide) (by decide) (by decide) (by decide) (by decide)
    with ⟨packets, server', hwire, hout, hloaded⟩
  -- The packets are the ones of the loop, and so is what the server makes of them.
  have hwire' := planificacion_wire sampleConfig waiting _ sampleResidue 1 waitingPcb []
    [97, 61, 49, 10] [] (by decide) (by decide) (by decide) (by decide)
    (by decide) hplan
  obtain rfl := List.append_cancel_left (hwire.symm.trans hwire')
  have hserver := outcome_unique _ _ _ _ hout (outcome_loadPackets sampleConfig sampleResidue
    waitingPcb [97, 61, 49, 10] (by decide) (by decide) rfl freeFrames rfl)
  rw [hserver] at hloaded
  have hloadable := (loadedServer_iff sampleConfig freeFrames 1 waitingPcb [97, 61, 49, 10]
    (by decide) (by decide) rfl freeFrames_granted).mp hloaded
  revert hloadable
  unfold Loadable LastPageThere
  decide

end Kernel

end Esther
