import Esther.Core.Kernel
import Esther.Theory.Fetch

/-!
# The Bounds of the Copying Loops

Which cells `get_bytes` and `set_bytes` index, and when they are there.

One loop runs through two arrays, and its bound comes from the request. Nobody compares
it with the length of either: with the end of main memory, which depends on the frame
and the offset; with the capacity of the reply buffer, for a read; with the length of the
payload that holds the bytes, for a store. The offset and the size are only checked for
their signs.

What a request may ask for follows from where the table has its page. The copying goes on
into the frames behind the one it starts in, whoever owns them, and as many of them have to
be there as the last byte is pages away. A page the table does not have is taken to be in the
first frame of all.

The processes that send the requests differ. The kernel announces the size of what it
sends. A CPU that assigns a variable announces four bytes and sends two.

## Main definitions

* `Peticion`: A request to read or to store.
* `accessedData`: The cells of the other array.
* `InBounds`: No cell that is indexed is outside of its array.
* `Destino`: The frame the table has for a page.
* `Cabe`: The frames from there on hold the request, and the other array its bytes.

## Theorems

* `getBytes_of_notMem`, `setBytes_congr`: The loops touch no other cells.
* `inBounds_iff_range`: The requests that stay within the arrays, by where they begin and end.
* `exists_destino`, `getFrame_of_destino`: `get_frame` finds the frame of a page.
* `inBounds_iff_cabe`: The requests that stay within the arrays, by what they ask for.
* `inBounds_of_frame`: A request within a frame.
* `storePage_cabe`: What the kernel stores fits its payload.
* `asignar_outOfBounds`: What a CPU assigns does not.
-/

namespace Esther

namespace Memoria

open Cells Serial

/-- A request, of one packet or of two. -/
inductive Peticion
  | sol (packet : Packet)
  | alm (packet data : Packet)

/-- The packet with the page, the offset and the size. -/
def Peticion.packet : Peticion → Packet
  | .sol packet => packet
  | .alm packet _ => packet

/-- The process whose page it is, which is named by the packet received last. -/
def Peticion.usrpid : Peticion → Int
  | .sol packet => packet.usrpid
  | .alm _ data => data.usrpid

/-- The length of the array that is not main memory: the reply buffer, or the payload. -/
def Peticion.capacity : Peticion → Int
  | .sol _ => bufferCapacity
  | .alm _ data => data.payload.length

/-- The frame `get_frame` finds. -/
def Peticion.frame (server : ServerState) (heap : Buf) (p : Peticion) : Int :=
  getFrame server.pageTable p.usrpid (requestPage p.packet heap)

/-- The cells of `data` that the loops of `getBytes` and `setBytes` visit, in order. -/
def accessedData (offset size : Int) : List Int :=
  if offset < 0 then []
  else if size ≤ 0 then []
  else span 0 size.toNat

/-- Every cell of main memory that is indexed is one of its `marcos * marco_size`, and
    every cell of the other array is below its capacity. -/
def InBounds (server : ServerState) (heap : Buf) (p : Peticion) : Prop :=
  (∀ i ∈ accessed server.marcoSize (p.frame server heap) (requestOffset p.packet heap)
      (requestSize p.packet heap), 0 ≤ i ∧ i < server.pageTable.length * server.marcoSize) ∧
  ∀ j ∈ accessedData (requestOffset p.packet heap) (requestSize p.packet heap),
    0 ≤ j ∧ j < p.capacity

/-- The page is one of as many as there are frames, and frame `i` is the first that the table
    has for it. -/
def Ubicada (table : PageTable) (pid page : Int) (i : Nat) : Prop :=
  0 ≤ page ∧ page < table.length ∧ FirstFrame table pid page i

/-- The frame a request for a page is about: the one the table has for it, or the first one if
    the table has none. -/
def Destino (table : PageTable) (pid page : Int) (i : Nat) : Prop :=
  Ubicada table pid page i ∨ ((¬ ∃ j, Ubicada table pid page j) ∧ i = 0)

/-- The request is rejected for its offset or its size, or the other array has room for its
    bytes and there are as many frames from that of its page on as its last byte is pages
    away. -/
def Cabe (server : ServerState) (heap : Buf) (p : Peticion) : Prop :=
  requestOffset p.packet heap < 0 ∨ requestSize p.packet heap ≤ 0 ∨
  (requestSize p.packet heap ≤ p.capacity ∧ 0 < server.marcoSize ∧
    ∃ i : Nat, Destino server.pageTable p.usrpid (requestPage p.packet heap) i ∧
      i + (requestOffset p.packet heap + requestSize p.packet heap - 1) / server.marcoSize
        < server.pageTable.length)

theorem mem_accessedData (offset size : Int) (hoffset : 0 ≤ offset) (hsize : 0 < size) (j : Int) :
    j ∈ accessedData offset size ↔ 0 ≤ j ∧ j < size := by
  rw [accessedData, if_neg (by omega), if_neg (by omega), mem_span]
  omega

/-- A read changes no other cell of the reply buffer. -/
theorem getBytes_of_notMem (marcoSize : Int) (main : Buf) (frame offset size : Int) (data : Buf)
    (j : Int) (h : j ∉ accessedData offset size) :
    (getBytes marcoSize main frame offset size data).1 j = data j := by
  rw [getBytes]
  split
  · rfl
  · split
    · rfl
    · rename_i hoffset hsize
      rw [mem_accessedData _ _ (by omega) (by omega)] at h
      simp only [copy_apply]
      rw [if_neg (by omega)]

/-- A store depends on no other cell of the payload. -/
theorem setBytes_congr (marcoSize : Int) (main : Buf) (frame offset size : Int) (data data' : Buf)
    (h : ∀ j ∈ accessedData offset size, data' j = data j) :
    setBytes marcoSize main frame offset size data'
      = setBytes marcoSize main frame offset size data := by
  rw [setBytes, setBytes]
  split
  · rfl
  · split
    · rfl
    · rename_i hoffset hsize
      simp only [Prod.mk.injEq, and_true]
      funext i
      rw [copy_apply, copy_apply]
      split
      · refine h _ ((mem_accessedData _ _ (by omega) (by omega) _).mpr ?_)
        omega
      · rfl

/-- A request stays within the arrays if and only if it is rejected or it begins and ends
    there. -/
theorem inBounds_iff_range (server : ServerState) (heap : Buf) (p : Peticion) :
    InBounds server heap p ↔ requestOffset p.packet heap < 0 ∨ requestSize p.packet heap ≤ 0 ∨
      (0 ≤ p.frame server heap * server.marcoSize + requestOffset p.packet heap ∧
        p.frame server heap * server.marcoSize + requestOffset p.packet heap
          + requestSize p.packet heap ≤ server.pageTable.length * server.marcoSize ∧
        requestSize p.packet heap ≤ p.capacity) := by
  unfold InBounds
  generalize requestOffset p.packet heap = offset
  generalize requestSize p.packet heap = size
  generalize p.frame server heap = frame
  by_cases hrejected : offset < 0 ∨ size ≤ 0
  · -- Nothing is indexed.
    have hnone : accessed server.marcoSize frame offset size = [] ∧ accessedData offset size = [] := by
      rw [accessed, accessedData]
      rcases hrejected with hoffset | hsize
      · rw [if_pos hoffset, if_pos hoffset]
        exact ⟨rfl, rfl⟩
      · rw [if_pos hsize, if_pos hsize, ite_self]
        exact ⟨rfl, rfl⟩
    rw [hnone.1, hnone.2]
    refine iff_of_true ⟨fun i hi => absurd hi List.not_mem_nil,
      fun j hj => absurd hj List.not_mem_nil⟩ ?_
    rw [← or_assoc]
    exact Or.inl hrejected
  · rw [not_or] at hrejected
    rcases hrejected with ⟨hoffset, hsize⟩
    have hmain := mem_accessed server.marcoSize frame offset size (by omega) (by omega)
    have hdata := mem_accessedData offset size (by omega) (by omega)
    rw [or_iff_right hoffset, or_iff_right hsize]
    constructor
    · -- The first and the last of the cells tell.
      rintro ⟨hin, hcapacity⟩
      have hfirst := hin _ ((hmain (frame * server.marcoSize + offset)).mpr (by omega))
      have hlast := hin _ ((hmain (frame * server.marcoSize + offset + size - 1)).mpr (by omega))
      have hend := hcapacity _ ((hdata (size - 1)).mpr (by omega))
      exact ⟨hfirst.1, by omega, by omega⟩
    · rintro ⟨hlo, hhi, hcapacity⟩
      refine ⟨fun i hi => ?_, fun j hj => ?_⟩
      · have hrange := (hmain i).mp hi
        omega
      · have hrange := (hdata j).mp hj
        omega

/-- There is such a frame for every page. -/
theorem exists_destino (table : PageTable) (pid page : Int) : ∃ i, Destino table pid page i := by
  by_cases hsome : ∃ j, Ubicada table pid page j
  · rcases hsome with ⟨j, hj⟩
    exact ⟨j, Or.inl hj⟩
  · exact ⟨0, Or.inr ⟨hsome, rfl⟩⟩

/-- It is the one `get_frame` finds. -/
theorem getFrame_of_destino (table : PageTable) (pid page : Int) (i : Nat)
    (h : Destino table pid page i) : getFrame table pid page = i := by
  rcases h with ⟨hlo, hhi, hfirst⟩ | ⟨hnone, rfl⟩
  · exact getFrame_of_bounds table pid page i hlo hhi hfirst
  · -- The page is out of bounds, or nobody holds it.
    by_cases hlo : page < 0
    · rw [getFrame, if_pos hlo, ite_self, Int.natCast_zero]
    by_cases hhi : (table.length : Int) ≤ page
    · rw [getFrame, if_neg hlo, if_pos hhi, ite_self, Int.natCast_zero]
    refine getFrame_of_not_mapped table pid page fun hmapped => hnone ?_
    rcases exists_firstFrame table pid page hmapped with ⟨j, hj⟩
    exact ⟨j, by omega, by omega, hj⟩

/-- The bytes that begin in a frame are all in main memory if the frame of the last one is. -/
theorem frames_iff (marcoSize offset size : Int) (frame frames : Nat) (hoffset : 0 ≤ offset)
    (hsize : 0 < size) :
    (0 ≤ frame * marcoSize + offset ∧ frame * marcoSize + offset + size ≤ frames * marcoSize)
      ↔ 0 < marcoSize ∧ frame + (offset + size - 1) / marcoSize < frames := by
  by_cases hpos : 0 < marcoSize
  · -- The last byte is in a frame that begins no later and ends no earlier.
    have hlast := Int.ediv_mul_le (offset + size - 1) (Int.ne_of_gt hpos)
    have hnext := Int.lt_ediv_add_one_mul_self (offset + size - 1) hpos
    generalize (offset + size - 1) / marcoSize = away at hlast hnext ⊢
    have hbase : 0 ≤ (frame : Int) * marcoSize :=
      Int.mul_nonneg (Int.natCast_nonneg frame) (Int.le_of_lt hpos)
    have hsum := Int.add_mul (frame : Int) away marcoSize
    constructor
    · rintro ⟨-, hend⟩
      refine ⟨hpos, ?_⟩
      by_contra hno
      have hle : (frames : Int) * marcoSize ≤ (frame + away) * marcoSize :=
        Int.mul_le_mul_of_nonneg_right (by omega) (Int.le_of_lt hpos)
      omega
    · rintro ⟨-, hframes⟩
      have hle : (frame + away + 1) * marcoSize ≤ frames * marcoSize :=
        Int.mul_le_mul_of_nonneg_right (by omega) (Int.le_of_lt hpos)
      rw [Int.add_mul, Int.one_mul] at hle hnext
      exact ⟨by omega, by omega⟩
  · -- There is no memory.
    have hnone : (frames : Int) * marcoSize ≤ 0 :=
      Int.mul_nonpos_of_nonneg_of_nonpos (Int.natCast_nonneg frames) (by omega)
    constructor
    · rintro ⟨hlo, hhi⟩
      omega
    · rintro ⟨hc, -⟩
      exact absurd hc hpos

/-- A request stays within the arrays if and only if it is rejected or it fits. -/
theorem inBounds_iff_cabe (server : ServerState) (heap : Buf) (p : Peticion) :
    InBounds server heap p ↔ Cabe server heap p := by
  rw [inBounds_iff_range, Cabe]
  by_cases hoffset : requestOffset p.packet heap < 0
  · exact iff_of_true (Or.inl hoffset) (Or.inl hoffset)
  by_cases hsize : requestSize p.packet heap ≤ 0
  · exact iff_of_true (Or.inr (Or.inl hsize)) (Or.inr (Or.inl hsize))
  rw [or_iff_right hoffset, or_iff_right hsize, or_iff_right hoffset, or_iff_right hsize]
  -- The frame is the one of the table.
  rcases exists_destino server.pageTable p.usrpid (requestPage p.packet heap) with ⟨i, hi⟩
  have hframe : p.frame server heap = i := getFrame_of_destino _ _ _ i hi
  have hiff := frames_iff server.marcoSize (requestOffset p.packet heap)
    (requestSize p.packet heap) i server.pageTable.length (by omega) (by omega)
  rw [hframe]
  constructor
  · rintro ⟨hlo, hhi, hcapacity⟩
    rcases hiff.mp ⟨hlo, hhi⟩ with ⟨hpos, hframes⟩
    exact ⟨hcapacity, hpos, i, hi, hframes⟩
  · rintro ⟨hcapacity, hpos, j, hj, hframes⟩
    have hij : (i : Int) = j := (getFrame_of_destino _ _ _ i hi).symm.trans
      (getFrame_of_destino _ _ _ j hj)
    rcases hiff.mpr ⟨hpos, hij ▸ hframes⟩ with ⟨hlo, hhi⟩
    exact ⟨hlo, hhi, hcapacity⟩

/-- A request within one of the frames stays within main memory. -/
theorem inBounds_of_frame (server : ServerState) (heap : Buf) (p : Peticion) (i : Nat)
    (hmarco : 0 ≤ server.marcoSize) (hframe : p.frame server heap = i)
    (hi : i < server.pageTable.length)
    (hend : requestOffset p.packet heap + requestSize p.packet heap ≤ server.marcoSize)
    (hcapacity : requestSize p.packet heap ≤ p.capacity) : InBounds server heap p := by
  rw [inBounds_iff_range, hframe]
  by_cases hoffset : requestOffset p.packet heap < 0
  · exact Or.inl hoffset
  · refine Or.inr (Or.inr ⟨?_, ?_, hcapacity⟩)
    · have hbase : 0 ≤ (i : Int) * server.marcoSize := Int.mul_nonneg (Int.natCast_nonneg i) hmarco
      omega
    · -- The next frame begins where this one ends.
      have hnext : ((i : Int) + 1) * server.marcoSize
          ≤ server.pageTable.length * server.marcoSize :=
        Int.mul_le_mul_of_nonneg_right (by omega) hmarco
      rw [Int.add_mul, Int.one_mul] at hnext
      omega

end Memoria

namespace Kernel

open Cells Serial

/-- The bytes the kernel sends for a page are as many as it announces, as long as the code
    has them and the size is a 16-bit number. -/
theorem storePage_cabe (r : Residue) (pcb : Pcb) (code : List UInt8) (pag size tam : Int)
    (packet data : Packet) (heap : Buf) (htam : 0 ≤ tam) (hsize : Short size) (hlo : 0 ≤ size)
    (hcode : tam + size ≤ code.length)
    (h : storePage r pcb code pag size tam = some (packet, data)) :
    Memoria.requestSize packet heap = (Memoria.Peticion.alm packet data).capacity := by
  rw [storePage] at h
  split at h
  · exact absurd h (by simp only [reduceCtorEq, not_false_eq_true])
  · rw [Option.some.injEq, Prod.mk.injEq] at h
    rcases h with ⟨rfl, rfl⟩
    have hpayload : (packed r
        { protocolHeader .KERNEL .OP_ME_ALMBYTPAG with usrpid := byte pcb.idProcess }
        [.h pag, .h 0, .h size]).payload = encArgs [.h pag, .h 0, .h size] :=
      protocolPacket_serialPack _ r.buffer _ _ (serialPack_eq r.buffer 0 _)
    rw [(Memoria.request_of_payload _ heap pag 0 size hpayload).2.2, toShort_of_short size hsize]
    simp only [Memoria.Peticion.capacity, List.length_take, List.length_drop]
    omega

end Kernel

namespace Cpu

open Cells Serial

/-- What `asignar` sends, the bytes being those of the value. -/
def asignarPeticion (r : Residue) (pcb : Pcb) (page offset valor : Int) : Memoria.Peticion :=
  let packet := memoryRequest r pcb .OP_ME_ALMBYTPAG page offset tamanioVariable
  .alm packet (packed r packet.header [.h valor])

theorem asignar_peticion (config : Config) (r : Residue) (s : State) (mem : Memoria.ServerState)
    (direccion valor : Int) :
    ∃ packet data, asignarPeticion r s.pcbActual (direccionPage config s.pcbActual direccion)
        (direccionOffset config direccion) valor = .alm packet data ∧
      (asignar config r s mem direccion valor).2
        = (Memoria.almBytPag mem s.conn r.server packet r.serverData data).1 :=
  ⟨_, _, rfl, rfl⟩

/-- An assignment that is not rejected reads past the end of its payload. -/
theorem asignar_outOfBounds (server : Memoria.ServerState) (heap : Buf) (r : Residue) (pcb : Pcb)
    (page offset valor : Int) (hoffset : 0 ≤ toShort offset) :
    ¬ Memoria.InBounds server heap (asignarPeticion r pcb page offset valor) := by
  have hrequest : (memoryRequest r pcb .OP_ME_ALMBYTPAG page offset tamanioVariable).payload
      = encArgs [.h page, .h offset, .h tamanioVariable] :=
    protocolPacket_serialPack _ r.buffer _ _ (serialPack_eq r.buffer 0 _)
  have hvalue : (packed r (memoryRequest r pcb .OP_ME_ALMBYTPAG page offset
      tamanioVariable).header [.h valor]).payload = encArgs [.h valor] :=
    protocolPacket_serialPack _ r.buffer _ _ (serialPack_eq r.buffer 0 _)
  rcases Memoria.request_of_payload _ heap page offset tamanioVariable hrequest
    with ⟨_, hdecoded, hfour⟩
  rw [Memoria.inBounds_iff_cabe, Memoria.Cabe]
  simp only [asignarPeticion, Memoria.Peticion.packet, Memoria.Peticion.capacity, hdecoded, hfour,
    hvalue]
  -- Four bytes are announced, and there are two.
  have htwo : (encArgs [.h valor]).length = 2 := rfl
  have hannounced : toShort tamanioVariable = 4 := by decide
  rw [htwo, hannounced]
  rintro (hc | hc | ⟨hc, -⟩)
  · omega
  · omega
  · omega

/-- The server has one frame, of the page that is assigned to. -/
theorem assignment_outOfBounds :
    ¬ ∀ (server : Memoria.ServerState) (heap : Buf) (p : Memoria.Peticion),
      Memoria.InBounds server heap p := by
  intro hall
  exact asignar_outOfBounds
    { marcoSize := 4, pageTable := [{ pid := 1, page := 0 }], main := fun _ => 0 } (fun _ => 0)
    { server := fun _ => 0, serverData := fun _ => 0, reply := fun _ => 0, buffer := fun _ => 0,
      id := 0 }
    { (default : Pcb) with idProcess := 1 } 0 0 7 (by decide) (hall _ _ _)

end Cpu

end Esther
