import Esther.Core.Cpu
import Esther.Theory.Requests

/-!
# Fetching an Instruction

The path of an instruction from the frames its bytes are stored in to the reply
the CPU receives.

The CPU splits the start of the instruction into a page and an offset and asks
for the whole of it at once; the server copies that many consecutive bytes of
main memory, starting in the frame of the first page. So the reply is right as
long as the rest of the instruction happens to follow in main memory. That is
the case inside a page. Across a page boundary it needs the next page to be in
the next frame, and `set_pages` numbers pages downwards while frames go up: the
next page of a fresh process is in an earlier frame, if anywhere near.

The other two limits come from the wire and from the reply buffer: the page and
the offset travel in 16-bit fields, and a reply has at most `BUFFER_CAPACITY`
bytes.

## Main definitions

* `FirstFrame`: The frame the table uses for a page.
* `Stored`: A code is stored page by page.
* `FetchExact`: Whatever code is stored, the reply is the instruction.
* `Fetchable`: The condition under which it is.

## Theorems

* `getFrame_of_firstFrame`: `get_frame` finds the first frame of a mapped page.
* `fetchExact_iff_fetchable`: The reply is the instruction exactly when the
  instruction is fetchable.
* `fetchable_iff_samePage`: For the pages of one assignment, that means that it
  fits a reply and lies in one page.
* `straddling_not_fetchExact`: An instruction across a page boundary.
-/

namespace Esther

namespace Memoria

open Cells Serial Cpu

/-- Frame `i` holds the page and no earlier frame does. -/
def FirstFrame (table : PageTable) (pid page : Int) (i : Nat) : Prop :=
  Mapped table pid page i ∧ ∀ j < i, ¬ Mapped table pid page j

/-- The code is stored in the frames of the process, byte `k` in page
    `k / marco_size` at offset `k % marco_size`. -/
def Stored (server : ServerState) (pid : Int) (code : List UInt8) : Prop :=
  ∀ (k : Nat) (hk : k < code.length),
    ∃ i : Nat, FirstFrame server.pageTable pid (k / server.marcoSize) i
      ∧ server.main (i * server.marcoSize + k % server.marcoSize) = code[k]

/-- Whatever code of the given size is stored, the reply to the request the CPU
    makes for an entry of its index is that part of the code. -/
def FetchExact (marcoSize : Int) (table : PageTable) (conn : Connection) (heap : Buf)
    (r : Cpu.Residue) (pcb : Pcb) (size start length : Nat) : Prop :=
  ∀ (main : Buf) (code : List UInt8), code.length = size →
    Stored { marcoSize := marcoSize, pageTable := table, main := main }
      (byte pcb.idProcess).toNat code →
    ∃ server conn' reply,
      solBytPag { marcoSize := marcoSize, pageTable := table, main := main } conn heap
          (pedirProximaInstruccionAMemoria marcoSize r pcb { start := start, offset := length })
        = some (server, conn', reply)
      ∧ reply.payload = (code.drop start).take length

/-- The instruction fits a reply, its page and offset survive the wire (a page
    number that does not is harmless only if it is then taken for frame zero and
    the page is there), and every page it spans is in the frame after that of the
    page before. -/
def Fetchable (table : PageTable) (pid marcoSize : Int) (start length : Nat) : Prop :=
  length ≤ bufferCapacity ∧ (start : Int) % marcoSize < 2 ^ 15
    ∧ ∃ i : Nat,
      ((start : Int) / marcoSize < 2 ^ 15
          ∨ (i = 0 ∧ ¬ ∃ j, Mapped table pid (toShort (start / marcoSize)) j))
        ∧ ∀ k : Nat, k < length →
          ∃ j : Nat, FirstFrame table pid ((start + k : Nat) / marcoSize) j
            ∧ (j : Int) = i + ((start + k : Nat) / marcoSize - start / marcoSize)

theorem firstFrame_unique (table : PageTable) (pid page : Int) (i j : Nat)
    (hi : FirstFrame table pid page i) (hj : FirstFrame table pid page j) : i = j := by
  by_contra hne
  rcases Nat.lt_or_gt_of_ne hne with hlt | hgt
  · exact hj.2 i hlt hi.1
  · exact hi.2 j hgt hj.1

/-- `get_frame` finds the first frame of a mapped page, if the page is in its bounds. -/
theorem getFrame_of_bounds (table : PageTable) (pid page : Int) (i : Nat) (hlo : 0 ≤ page)
    (hhi : page < table.length) (h : FirstFrame table pid page i) :
    getFrame table pid page = i := by
  have hpos := h.1.1
  rcases hfind : table.findIdx? fun row => row.pid == pid && row.page == page with _ | j
  · have hnone := List.findIdx?_eq_none_iff.mp hfind _ (List.mem_of_getElem? h.1.2)
    simp only [beq_self_eq_true, Bool.and_self, Bool.true_eq_false] at hnone
  · have hget : getFrame table pid page = j := by
      rw [getFrame, if_neg (by omega), if_neg (by omega), if_neg (by omega), hfind]
    rcases List.findIdx?_eq_some_iff_getElem.mp hfind with ⟨hj, hmatch, hbefore⟩
    have hrow : ∀ (m : Nat) (hm : m < table.length),
        (table[m].pid == pid && table[m].page == page) = true ↔ Mapped table pid page m := by
      intro m hm
      rw [Mapped, List.getElem?_eq_getElem hm, Option.some.injEq]
      simp only [Bool.and_eq_true, beq_iff_eq, Row.ext_iff]
      exact ⟨fun hc => ⟨hpos, hc⟩, fun hc => hc.2⟩
    have hfirst : FirstFrame table pid page j := by
      refine ⟨(hrow j hj).mp hmatch, fun m hm hc => ?_⟩
      exact hbefore m hm ((hrow m (by omega)).mpr hc)
    rw [hget, firstFrame_unique table pid page j i hfirst h]

/-- The pages of a table that is in order are all in bounds. -/
theorem getFrame_of_firstFrame (table : PageTable) (hok : TableOk table) (pid page : Int) (i : Nat)
    (h : FirstFrame table pid page i) : getFrame table pid page = i := by
  have hbounds := mapped_bounds _ hok _ _ _ h.1
  exact getFrame_of_bounds table pid page i hbounds.1 hbounds.2 h

/-- Where a byte of the code is: the frame of its page, plus the offset. -/
def home (table : PageTable) (pid marcoSize : Int) (k : Nat) : Int :=
  getFrame table pid (k / marcoSize) * marcoSize + k % marcoSize

/-- What the server decodes from the CPU's request. -/
theorem request_decodes (marcoSize : Int) (r : Cpu.Residue) (pcb : Pcb) (start length : Nat)
    (heap : Buf) :
    requestPage (pedirProximaInstruccionAMemoria marcoSize r pcb ⟨start, length⟩) heap
        = toShort (start / marcoSize)
      ∧ requestOffset (pedirProximaInstruccionAMemoria marcoSize r pcb ⟨start, length⟩) heap
        = toShort (start % marcoSize)
      ∧ requestSize (pedirProximaInstruccionAMemoria marcoSize r pcb ⟨start, length⟩) heap
        = toShort length := by
  refine request_of_payload _ heap _ _ _ ?_
  have hdiv : (start : Int).tdiv marcoSize = start / marcoSize :=
    Int.tdiv_eq_ediv_of_nonneg (Int.natCast_nonneg start)
  have hmod : (start : Int).tmod marcoSize = start % marcoSize :=
    Int.tmod_eq_emod_of_nonneg (Int.natCast_nonneg start)
  rw [← hdiv, ← hmod]
  exact protocolPacket_serialPack _ _ _ _ (serialPack_eq _ _ _)

theorem request_usrpid (marcoSize : Int) (r : Cpu.Residue) (pcb : Pcb) (instruccion : Instruction) :
    (pedirProximaInstruccionAMemoria marcoSize r pcb instruccion).usrpid
      = (byte pcb.idProcess).toNat := rfl

/-- A mapped page has a first frame. -/
theorem exists_firstFrame (table : PageTable) (pid page : Int)
    (h : ∃ i, Mapped table pid page i) : ∃ i, FirstFrame table pid page i := by
  classical
  exact ⟨Nat.find h, Nat.find_spec h, fun j hj => Nat.find_min h hj⟩

/-- The reply of a round that has one. -/
theorem exists_reply_iff (server : ServerState) (sent : Connection × Packet)
    (bytes : List UInt8) :
    (∃ server' conn' reply, some (server, sent) = some (server', conn', reply)
        ∧ reply.payload = bytes) ↔ sent.2.payload = bytes := by
  constructor
  · intro h
    rcases h with ⟨_, _, reply, heq, hbytes⟩
    rw [Option.some.injEq, Prod.mk.injEq] at heq
    rw [heq.2]
    exact hbytes
  · intro h
    exact ⟨server, sent.1, sent.2, rfl, h⟩

/-- The reply to the CPU's request. It is empty if the request is rejected;
    otherwise it is a run of consecutive bytes of main memory, provided it fits
    the server's buffer. -/
theorem fetch_reply_iff (marcoSize : Int) (table : PageTable) (main : Buf) (conn : Connection)
    (heap : Buf) (r : Cpu.Residue) (pcb : Pcb) (start length : Nat) (bytes : List UInt8)
    (hne : bytes ≠ []) :
    (∃ server conn' reply,
        solBytPag { marcoSize := marcoSize, pageTable := table, main := main } conn heap
            (pedirProximaInstruccionAMemoria marcoSize r pcb { start := start, offset := length })
          = some (server, conn', reply)
        ∧ reply.payload = bytes)
      ↔ 0 ≤ toShort (start % marcoSize) ∧ 0 < toShort length ∧ toShort length ≤ bufferCapacity
        ∧ bytes = slice main
          (getFrame table (byte pcb.idProcess).toNat (toShort (start / marcoSize)) * marcoSize
            + toShort (start % marcoSize)) (toShort length).toNat := by
  rcases request_decodes marcoSize r pcb start length heap with ⟨hpage, hoffset, hsize⟩
  by_cases hrej : toShort (start % marcoSize) < 0 ∨ toShort length ≤ 0
  · rw [solBytPag_rejected _ _ _ _ (by rw [hoffset, hsize]; exact hrej), exists_reply_iff,
      reply_payload]
    constructor
    · intro h
      exact absurd h.symm hne
    · intro h
      omega
  · rw [not_or] at hrej
    rw [solBytPag_accepted _ _ _ _ (by rw [hoffset]; exact hrej.1) (by rw [hsize]; exact hrej.2),
      hpage, hoffset, hsize, request_usrpid]
    have hslice := getBytes_slice marcoSize main
      (getFrame table (byte pcb.idProcess).toNat (toShort (start / marcoSize)))
      (toShort (start % marcoSize)) (toShort length) conn.buffer (by omega) (by omega)
    by_cases hcap : (bufferCapacity : Int) < toShort length
    -- More than the server's buffer holds: there is no reply to speak of.
    · rw [if_pos hcap]
      constructor
      · intro h
        rcases h with ⟨_, _, _, heq, _⟩
        exact absurd heq (by simp only [reduceCtorEq, not_false_eq_true])
      · intro h
        omega
    · rw [if_neg hcap, exists_reply_iff, reply_payload, hslice]
      constructor
      · intro h
        exact ⟨by omega, by omega, by omega, h.symm⟩
      · intro h
        exact h.2.2.2.symm

/-- The code whose byte `l` is one if `l` is `k`, and the memory that stores
    it. -/
def probeMemory (table : PageTable) (pid marcoSize : Int) (k : Nat) : Buf :=
  fun c => if c = home table pid marcoSize k then 1 else 0

def probeCode (table : PageTable) (pid marcoSize : Int) (size k : Nat) : List UInt8 :=
  (List.range size).map fun l => probeMemory table pid marcoSize k (home table pid marcoSize l)

theorem probe_stored (table : PageTable) (hok : TableOk table) (pid marcoSize : Int) (size k : Nat)
    (hpages : ∀ l : Nat, l < size → ∃ i, Mapped table pid (l / marcoSize) i) :
    Stored { marcoSize := marcoSize, pageTable := table,
             main := probeMemory table pid marcoSize k } pid
      (probeCode table pid marcoSize size k) := by
  intro l hl
  have hlen : l < size := by
    simpa only [probeCode, List.length_map, List.length_range] using hl
  rcases exists_firstFrame table pid _ (hpages l hlen) with ⟨i, hi⟩
  refine ⟨i, hi, ?_⟩
  simp only [probeCode, List.getElem_map, List.getElem_range]
  rw [home, getFrame_of_firstFrame table hok pid _ i hi]

/-- If the reply is always the instruction, the bytes copied are the bytes of the
    instruction, cell by cell: a memory with a single one in it tells them
    apart. -/
theorem cells_of_fetchExact (marcoSize : Int) (table : PageTable) (hok : TableOk table)
    (conn : Connection) (heap : Buf) (r : Cpu.Residue) (pcb : Pcb) (size start length : Nat)
    (hlen : 0 < length) (hin : start + length ≤ size)
    (hpages : ∀ l : Nat, l < size →
      ∃ i, Mapped table (byte pcb.idProcess).toNat (l / marcoSize) i)
    (h : FetchExact marcoSize table conn heap r pcb size start length) (k : Nat) (hk : k < length) :
    0 ≤ toShort (start % marcoSize) ∧ toShort length = length ∧ length ≤ bufferCapacity
      ∧ getFrame table (byte pcb.idProcess).toNat (toShort (start / marcoSize)) * marcoSize
          + toShort (start % marcoSize) + k
        = home table (byte pcb.idProcess).toNat marcoSize (start + k) := by
  have hcode : (probeCode table (byte pcb.idProcess).toNat marcoSize size (start + k)).length
      = size := by
    simp only [probeCode, List.length_map, List.length_range]
  have hfetch := h _ _ hcode
    (probe_stored table hok (byte pcb.idProcess).toNat marcoSize size (start + k) hpages)
  have htake : (((probeCode table (byte pcb.idProcess).toNat marcoSize size (start + k)).drop
      start).take length).length = length := by
    rw [List.length_take, List.length_drop, hcode]
    omega
  have hne : ((probeCode table (byte pcb.idProcess).toNat marcoSize size (start + k)).drop
      start).take length ≠ [] := by
    intro hc
    rw [hc, List.length_nil] at htake
    omega
  rcases (fetch_reply_iff marcoSize table _ conn heap r pcb start length _ hne).mp hfetch with
    ⟨hoff, hpos, hcap, hbytes⟩
  have hsame : (toShort length).toNat = length := by
    have hl := congrArg List.length hbytes
    rw [htake, slice_length] at hl
    exact hl.symm
  refine ⟨hoff, by omega, by omega, ?_⟩
  -- Byte `k` of the reply is one, so its cell is the one that holds it.
  have hcell : probeMemory table (byte pcb.idProcess).toNat marcoSize (start + k)
      (getFrame table (byte pcb.idProcess).toNat (toShort (start / marcoSize)) * marcoSize
        + toShort (start % marcoSize) + k) = 1 := by
    have hk' : k < (slice (probeMemory table (byte pcb.idProcess).toNat marcoSize (start + k))
        (getFrame table (byte pcb.idProcess).toNat (toShort (start / marcoSize)) * marcoSize
          + toShort (start % marcoSize)) (toShort length).toNat).length := by
      rw [slice_length]
      omega
    have hget := slice_getElem _ _ _ k hk'
    rw [← hget]
    simp only [← hbytes, List.getElem_take, List.getElem_drop, probeCode, List.getElem_map,
      List.getElem_range]
    exact if_pos rfl
  by_contra hc
  rw [probeMemory, if_neg hc] at hcell
  exact absurd hcell (by decide)

/-- The address of a byte of the code, by how far its page is from the first. -/
theorem home_eq (marcoSize : Int) (start k : Nat) (i j : Int)
    (h : j = i + ((start + k : Nat) / marcoSize - start / marcoSize)) :
    j * marcoSize + ((start + k : Nat) : Int) % marcoSize
      = i * marcoSize + start % marcoSize + k := by
  have hk := Int.mul_ediv_add_emod ((start + k : Nat) : Int) marcoSize
  have hs := Int.mul_ediv_add_emod (start : Int) marcoSize
  have hprod : j * marcoSize = i * marcoSize
      + (marcoSize * (((start + k : Nat) : Int) / marcoSize) - marcoSize * (start / marcoSize)) := by
    rw [h]
    ring
  omega

theorem fetchExact_of_fetchable (marcoSize : Int) (hpos : 0 < marcoSize) (table : PageTable)
    (hok : TableOk table) (conn : Connection) (heap : Buf) (r : Cpu.Residue) (pcb : Pcb)
    (size start length : Nat) (hlen : 0 < length) (hin : start + length ≤ size)
    (h : Fetchable table (byte pcb.idProcess).toNat marcoSize start length) :
    FetchExact marcoSize table conn heap r pcb size start length := by
  intro main code hcode hstored
  rcases h with ⟨hcap, hoffset, i, hpage, hspan⟩
  have hcapval : bufferCapacity = 1024 := rfl
  have hmod := Int.emod_nonneg (start : Int) (by omega : marcoSize ≠ 0)
  have hdiv := Int.ediv_nonneg (Int.natCast_nonneg start) (by omega : 0 ≤ marcoSize)
  have hshortOff := (toShort_eq_iff _ hmod).mpr hoffset
  have hshortLen := (toShort_eq_iff (length : Int) (Int.natCast_nonneg length)).mpr (by omega)
  have hframe : getFrame table (byte pcb.idProcess).toNat (toShort (start / marcoSize)) = i := by
    rcases hpage with hsmall | ⟨hzero, hnone⟩
    -- The page asked for is the one meant, or it is in no frame and the first frame is read.
    · rcases hspan 0 hlen with ⟨j, hj, hji⟩
      rw [(toShort_eq_iff _ hdiv).mpr hsmall]
      rw [Nat.add_zero] at hj hji
      rw [getFrame_of_firstFrame table hok _ _ j hj]
      omega
    · rw [getFrame_of_not_mapped _ _ _ hnone, hzero]
      rfl
  have htake : ((code.drop start).take length).length = length := by
    rw [List.length_take, List.length_drop, hcode]
    omega
  have hne : (code.drop start).take length ≠ [] := by
    intro hc
    rw [hc, List.length_nil] at htake
    omega
  refine (fetch_reply_iff marcoSize table main conn heap r pcb start length _ hne).mpr
    ⟨by omega, by omega, by omega, ?_⟩
  rw [hshortOff, hshortLen, hframe, Int.toNat_natCast]
  refine List.ext_getElem (by rw [htake, slice_length]) fun k hk hk' => ?_
  rw [htake] at hk
  rw [slice_getElem, List.getElem_take, List.getElem_drop]
  -- Byte by byte, where the line is read is where it is stored.
  rcases hstored (start + k) (by omega) with ⟨j', hj', hbyte⟩
  rcases hspan k hk with ⟨j, hj, hji⟩
  rw [firstFrame_unique table _ _ j' j hj' hj] at hbyte
  rw [← hbyte, home_eq marcoSize start k i j hji]

theorem fetchable_of_fetchExact (marcoSize : Int) (hpos : 0 < marcoSize) (table : PageTable)
    (hok : TableOk table) (conn : Connection) (heap : Buf) (r : Cpu.Residue) (pcb : Pcb)
    (size start length : Nat) (hlen : 0 < length) (hin : start + length ≤ size)
    (hpages : ∀ l : Nat, l < size →
      ∃ i, Mapped table (byte pcb.idProcess).toNat (l / marcoSize) i)
    (h : FetchExact marcoSize table conn heap r pcb size start length) :
    Fetchable table (byte pcb.idProcess).toNat marcoSize start length := by
  have hcells := cells_of_fetchExact marcoSize table hok conn heap r pcb size start length hlen hin
    hpages h
  have hmod := Int.emod_nonneg (start : Int) (by omega : marcoSize ≠ 0)
  have hmod' := Int.emod_lt_of_pos (start : Int) hpos
  have hdiv := Int.ediv_nonneg (Int.natCast_nonneg start) (by omega : 0 ≤ marcoSize)
  rcases hcells 0 hlen with ⟨hoff, hshortLen, hcap, hfirst⟩
  rcases exists_firstFrame table _ _ (hpages start (by omega)) with ⟨i, hi⟩
  -- The first byte: the frame and the offset that came over the wire are right.
  rw [Nat.add_zero, home, getFrame_of_firstFrame table hok _ _ i hi, Int.natCast_zero,
    Int.add_zero] at hfirst
  have hle := toShort_le _ hmod
  have hframe := frame_cell_inj marcoSize _ (i : Int) _ _ ⟨hoff, by omega⟩ ⟨hmod, hmod'⟩ hfirst
  have hoffset : toShort ((start : Int) % marcoSize) = start % marcoSize := by
    rw [hframe] at hfirst
    omega
  refine ⟨hcap, (toShort_eq_iff _ hmod).mp hoffset, i, ?_, fun k hk => ?_⟩
  · by_cases hsmall : (start : Int) / marcoSize < 2 ^ 15
    · exact Or.inl hsmall
    · have hother : toShort ((start : Int) / marcoSize) ≠ start / marcoSize :=
        fun hc => hsmall ((toShort_eq_iff _ hdiv).mp hc)
      have hnone : ¬ ∃ j, Mapped table (byte pcb.idProcess).toNat
          (toShort (start / marcoSize)) j := by
        intro hc
        rcases exists_firstFrame table _ _ hc with ⟨j, hj⟩
        rw [getFrame_of_firstFrame table hok _ _ j hj] at hframe
        have hrows := (Int.ofNat_inj.mp hframe ▸ hj.1.2).symm.trans hi.1.2
        rw [Option.some.injEq, Row.mk.injEq] at hrows
        exact hother hrows.2
      rw [getFrame_of_not_mapped _ _ _ hnone] at hframe
      exact Or.inr ⟨Int.ofNat_inj.mp hframe.symm, hnone⟩
  · -- A later byte: its page is as many frames further on as pages.
    rcases exists_firstFrame table _ _ (hpages (start + k) (by omega)) with ⟨j, hj⟩
    refine ⟨j, hj, ?_⟩
    have hcell := (hcells k hk).2.2.2
    rw [home, getFrame_of_firstFrame table hok _ _ j hj, hframe, hoffset] at hcell
    have hexp := home_eq marcoSize start k i
      (i + ((start + k : Nat) / marcoSize - start / marcoSize)) rfl
    refine Int.eq_of_mul_eq_mul_right (by omega : marcoSize ≠ 0) ?_
    omega

/-- For every reachable table, page size and entry of the code index whose bytes
    are in mapped pages: the reply is the instruction, whatever code is stored,
    exactly when the instruction is fetchable. -/
theorem fetchExact_iff_fetchable (marcoSize : Int) (hpos : 0 < marcoSize) (table : PageTable)
    (hreach : ReachableTable table) (conn : Connection) (heap : Buf) (r : Cpu.Residue) (pcb : Pcb)
    (size start length : Nat) (hlen : 0 < length) (hin : start + length ≤ size)
    (hpages : ∀ l : Nat, l < size →
      ∃ i, Mapped table (byte pcb.idProcess).toNat (l / marcoSize) i) :
    FetchExact marcoSize table conn heap r pcb size start length
      ↔ Fetchable table (byte pcb.idProcess).toNat marcoSize start length := by
  have hok := tableOk_of_reachable table hreach
  exact ⟨fetchable_of_fetchExact marcoSize hpos table hok conn heap r pcb size start length hlen hin
      hpages,
    fetchExact_of_fetchable marcoSize hpos table hok conn heap r pcb size start length hlen hin⟩

/-- The pages of a process count down when they are those of one assignment. -/
theorem page_lt_of_frame_lt (table : PageTable) (pid : Int) (n : Nat)
    (hfresh : pagesOf table pid = countdown n) (page page' : Int) (i j : Nat)
    (hi : Mapped table pid page i) (hj : Mapped table pid page' j) (hlt : i < j) :
    page' < page := by
  have hdown : ∀ m : Nat, (countdown m).Pairwise (· > ·) := by
    intro m
    induction m with
    | zero => exact List.Pairwise.nil
    | succ m ih =>
        refine List.Pairwise.cons (fun x hx => ?_) ih
        exact ((mem_countdown m x).mp hx).2
  have hpair := hdown n
  rw [← hfresh, pagesOf, List.pairwise_filterMap] at hpair
  rcases List.getElem?_eq_some_iff.mp hi.2 with ⟨hilen, hirow⟩
  rcases List.getElem?_eq_some_iff.mp hj.2 with ⟨hjlen, hjrow⟩
  have hrows := (List.pairwise_iff_getElem.mp hpair) i j hilen hjlen hlt
  exact hrows page (by rw [hirow, if_pos rfl]) page' (by rw [hjrow, if_pos rfl])

/-- For a process whose pages are those of one assignment, an instruction is
    fetchable exactly if it fits a reply and lies in one page. -/
theorem fetchable_iff_samePage (table : PageTable) (pid marcoSize : Int) (hpos : 0 < marcoSize)
    (n : Nat) (hfresh : pagesOf table pid = countdown n) (start length : Nat) (hlen : 0 < length)
    (hmapped : ∃ i, Mapped table pid (start / marcoSize) i)
    (hpage : (start : Int) / marcoSize < 2 ^ 15) :
    Fetchable table pid marcoSize start length
      ↔ length ≤ bufferCapacity ∧ (start : Int) % marcoSize < 2 ^ 15
        ∧ ((start + (length - 1) : Nat) : Int) / marcoSize = start / marcoSize := by
  have hmono : ∀ k l : Nat, k ≤ l → ((k : Int) / marcoSize) ≤ (l : Int) / marcoSize :=
    fun k l hkl => Int.ediv_le_ediv hpos (by omega)
  constructor
  · intro h
    rcases h with ⟨hcap, hoffset, i, _, hspan⟩
    refine ⟨hcap, hoffset, ?_⟩
    rcases hspan 0 hlen with ⟨i', hi', hii'⟩
    rcases hspan (length - 1) (by omega) with ⟨j, hj, hji⟩
    have hle := hmono start (start + (length - 1)) (by omega)
    rw [Nat.add_zero] at hi' hii'
    by_contra hne
    -- A later page would have to be in a later frame.
    have hlt := page_lt_of_frame_lt table pid n hfresh _ _ i' j hi'.1 hj.1 (by omega)
    omega
  · intro h
    rcases h with ⟨hcap, hoffset, hsame⟩
    rcases exists_firstFrame table pid _ hmapped with ⟨i, hi⟩
    refine ⟨hcap, hoffset, i, Or.inl hpage, fun k hk => ⟨i, ?_, ?_⟩⟩
    · have hlo := hmono start (start + k) (by omega)
      have hhi := hmono (start + k) (start + (length - 1)) (by omega)
      rw [(by omega : ((start + k : Nat) : Int) / marcoSize = start / marcoSize)]
      exact hi
    · have hlo := hmono start (start + k) (by omega)
      have hhi := hmono (start + k) (start + (length - 1)) (by omega)
      omega

/-- Two pages of code in two frames, as `set_pages` hands them out. -/
def twoPages : PageTable := [{ pid := 1, page := 1 }, { pid := 1, page := 0 }]

theorem twoPages_reachable : ReachableTable twoPages := ⟨2, [.setPages 1 2], rfl⟩

theorem twoPages_mapped (l : Nat) (hl : l < 8) : ∃ i, Mapped twoPages 1 ((l : Int) / 4) i := by
  rcases (by omega : (l : Int) / 4 = 0 ∨ (l : Int) / 4 = 1) with hpage | hpage
  · exact ⟨1, by decide, by rw [hpage]; rfl⟩
  · exact ⟨0, by decide, by rw [hpage]; rfl⟩

/-- A process with number 1, whatever it is otherwise. -/
def processOne : Pcb := { (default : Pcb) with idProcess := 1 }

def zeroResidue : Cpu.Residue :=
  { server := fun _ => 0, serverData := fun _ => 0, reply := fun _ => 0, buffer := fun _ => 0,
    id := 0 }

def zeroConnection : Connection :=
  { header := protocolHeader .CPU .OP_HANDSHAKE, buffer := fun _ => 0 }

theorem twoPages_fetchExact_iff :
    FetchExact 4 twoPages zeroConnection (fun _ => 0) zeroResidue processOne 8 2 4
      ↔ Fetchable twoPages (byte processOne.idProcess).toNat 4 2 4 :=
  fetchExact_iff_fetchable 4 (by decide) twoPages twoPages_reachable _ _ _ processOne 8 2 4
    (by decide) (by decide) twoPages_mapped

/-- Four bytes from the third byte of a page of four: the second half comes from
    whatever is in the next frame. -/
theorem straddling_not_fetchExact :
    ¬ ∀ (marcoSize : Int) (table : PageTable) (conn : Connection) (heap : Buf) (r : Cpu.Residue)
        (pcb : Pcb) (size start length : Nat),
      0 < marcoSize → ReachableTable table → 0 < length → start + length ≤ size →
      (∀ l : Nat, l < size → ∃ i, Mapped table (byte pcb.idProcess).toNat (l / marcoSize) i) →
      FetchExact marcoSize table conn heap r pcb size start length := by
  intro hall
  have hexact := hall 4 twoPages zeroConnection (fun _ => 0) zeroResidue processOne 8 2 4
    (by decide) twoPages_reachable (by decide) (by decide) twoPages_mapped
  have hfetch := fetchable_of_fetchExact 4 (by decide) twoPages
    (tableOk_of_reachable _ twoPages_reachable) _ _ _ processOne 8 2 4 (by decide) (by decide)
    twoPages_mapped hexact
  rcases hfetch with ⟨_, _, i, _, hspan⟩
  -- The third byte of the instruction is the first of page 1, which is in frame 0.
  rcases hspan 2 (by decide) with ⟨j, hj, hji⟩
  have hzero : FirstFrame twoPages (byte processOne.idProcess).toNat
      (((2 + 2 : Nat) : Int) / 4) 0 := ⟨⟨by decide, rfl⟩, fun m hm => absurd hm (Nat.not_lt_zero m)⟩
  have hj0 := firstFrame_unique _ _ _ _ _ hj hzero
  omega

end Memoria

end Esther
