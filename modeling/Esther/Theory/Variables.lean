import Esther.Lib.Paging
import Esther.Theory.Contexts
import Esther.Theory.Isolation
import Esther.Theory.Replies
import Esther.Theory.Spaces

/-!
# Variables

Whether a variable holds what was assigned to it.

The values of a process are in its pages at the memory server, four bytes for each
variable. `asignar` announces four bytes and sends two; `dereferenciar` reads four and
decodes the first two. A value that two bytes can carry comes back, and no other does,
wherever the page of the variable is.

The variables themselves do not get into each other's way. Their positions are multiples of
four, and so is the size of a page, so that each lies in one page. The frames of a process
are its own as long as the other clients stay within their pages.

The values last assigned are kept beside the process, as a function of the position.

## Main definitions

* `Proceso`, `Accion`: A process with its variables, and what it or another client does.
* `Fiel`: A variable that is read has the value assigned to it, and an assignment does not
  change the value of another.
* `Ajeno`: Another client stays within its pages.
* `Cabe`: The value that is read back is one that two bytes can carry.
* `Admitido`: A process as it is admitted.
* `Guarda`: What the memory holds at the positions that have been assigned.

## Theorems

* `dereferenciar_value`, `asignar_main`: What the two primitives do to main memory.
* `guarda_step`: Every step keeps the values where they are.
* `large_value_lost`: A value of seventeen bits.
* `variables_hold_iff`: Runs.
-/

namespace Esther

namespace Memoria

/-- The process a request is about. Of a store it is the second packet that counts. -/
def Pedido.usrpid : Pedido → Int
  | .iniPro packet => packet.usrpid
  | .solBytPag packet _ => packet.usrpid
  | .almBytPag _ data => data.usrpid
  | .finPro packet => packet.usrpid

end Memoria

namespace Cpu

open Cells Frames Memoria Paging Serial Transition

/-- The number by which the memory server knows a process. -/
def usuario (pcb : Pcb) : Int := ((byte pcb.idProcess).toNat : Int)

/-- A process on a CPU, the memory server, and the last value assigned at each position. -/
structure Proceso where
  cpu : State
  memoria : ServerState
  valores : Int → Option Int

/-- A call of one of the three primitives, or a request of another client on its own
    connection. -/
inductive Accion
  | definirVariable (r : Residue) (identificador : Int)
  | asignar (r : Residue) (posicion valor : Int)
  | dereferenciar (r : Residue) (posicion : Int)
  | otro (conn : Connection) (heap heapData : Buf) (pedido : Pedido)

/-- Values are assigned and read at the positions of variables. -/
def Proceso.step (config : Config) (s : Proceso) : Accion → Option Proceso
  | .definirVariable r identificador =>
      some { s with cpu := (Cpu.definirVariable config r s.cpu identificador).1 }
  | .asignar r posicion valor =>
      if posicion ∈ posiciones config s.cpu.pcbActual then
        let a := Cpu.asignar config r s.cpu s.memoria posicion valor
        some { cpu := a.1, memoria := a.2,
               valores := Function.update s.valores posicion (some valor) }
      else none
  | .dereferenciar r posicion =>
      if posicion ∈ posiciones config s.cpu.pcbActual then
        (Cpu.dereferenciar config r s.cpu s.memoria posicion).map fun d =>
          { s with cpu := d.1, memoria := d.2.1 }
      else none
  | .otro conn heap heapData pedido =>
      (pedido.atender s.memoria conn heap heapData).map fun a => { s with memoria := a.1 }

/-- What `dereferenciar` returns. -/
def Proceso.lee (config : Config) (s : Proceso) (r : Residue) (posicion : Int) : Option Int :=
  (Cpu.dereferenciar config r s.cpu s.memoria posicion).map fun d => d.2.2

/-- What is read is what was assigned last, and an assignment leaves the other variables as
    they are. -/
def Fiel (config : Config) (s : Proceso) : Accion → Prop
  | .dereferenciar r posicion => ∀ valor, s.valores posicion = some valor →
      s.lee config r posicion = some valor
  | .asignar r posicion valor => ∀ u, s.step config (.asignar r posicion valor) = some u →
      ∀ r' otra, otra ∈ posiciones config s.cpu.pcbActual → otra ≠ posicion →
        u.lee config r' otra = s.lee config r' otra
  | _ => True

/-- Two bytes can carry the value that is read back. -/
def Cabe (s : Proceso) : Accion → Prop
  | .dereferenciar _ posicion => ∀ valor, s.valores posicion = some valor → Short valor
  | _ => True

/-- Another client is another process for the server, and stores nothing outside its pages. -/
def Ajeno (s : Proceso) : Accion → Prop
  | .otro _ heap _ pedido => pedido.usrpid ≠ usuario s.cpu.pcbActual ∧
      match pedido with
      | .almBytPag packet data => Confined s.memoria data.usrpid (requestPage packet heap)
          (requestOffset packet heap) (requestSize packet heap)
      | _ => True
  | _ => True

/-- A process with the pages that it was admitted with, on a CPU that has been told the size
    of the frames, which is a multiple of four. -/
structure Admitido (config : Config) (pcb : Pcb) (server : ServerState) : Prop where
  multiplo : 4 ∣ config.tamanioPagina
  positivo : 0 < config.tamanioPagina
  corto : Short config.tamanioPagina
  marco : server.marcoSize = config.tamanioPagina
  codigo : 0 ≤ pcb.pagesCode
  pila : 0 ≤ config.stackSize
  paginas : Short (pcb.pagesCode + config.stackSize)
  conocido : 0 < usuario pcb
  tabla : TableOk server.pageTable
  propias : ∀ page, 0 ≤ page → page < pcb.pagesCode + config.stackSize →
    page ∈ pagesOf server.pageTable (usuario pcb)

/-- The frame a page of the stack is in. -/
def marcoDe (pcb : Pcb) (server : ServerState) (page : Int) : Int :=
  getFrame server.pageTable (usuario pcb) (page + pcb.pagesCode)

/-- The cell at which the value at a position begins. -/
def celda (config : Config) (pcb : Pcb) (server : ServerState) (posicion : Int) : Int :=
  place (marcoDe pcb server) config.tamanioPagina posicion

/-- The process is as it was admitted, its variables are stacked, and every value assigned
    is at its position, as far as two bytes carry it. -/
structure Guarda (config : Config) (s : Proceso) : Prop where
  admitido : Admitido config s.cpu.pcbActual s.memoria
  apilada : Apilada config s.cpu.pcbActual
  limite : s.cpu.pcbActual.stackPointer ≤ config.stackSize * config.tamanioPagina
  valores : ∀ posicion valor, s.valores posicion = some valor →
    posicion ∈ posiciones config s.cpu.pcbActual ∧
      unpacki16 s.memoria.main (celda config s.cpu.pcbActual s.memoria posicion) = toShort valor

/-! ### Positions -/

/-- A position is a multiple of four, with its four bytes below `stackPointer`. -/
theorem posicion_aligned (config : Config) (pcb : Pcb) (posicion : Int)
    (ha : Apilada config pcb) (hmem : posicion ∈ posiciones config pcb) :
    4 ∣ posicion ∧ 0 ≤ posicion ∧ posicion + 4 ≤ pcb.stackPointer := by
  rcases stacked_flatten _ _ _ _ ha with ⟨hperm, htop⟩
  have hblock := hperm.mem_iff.mp hmem
  rw [block, List.mem_map] at hblock
  rcases hblock with ⟨k, hk, rfl⟩
  rw [List.mem_range] at hk
  rw [htop]
  simp only [tamanioVariable, Int.zero_add]
  exact ⟨Int.dvd_mul_right 4 (k : Int), by omega, by omega⟩

/-- The page of a position is one of the stack. -/
theorem posicion_page (config : Config) (s : Proceso) (posicion : Int) (hs : Guarda config s)
    (hmem : posicion ∈ posiciones config s.cpu.pcbActual) :
    0 ≤ posicion / config.tamanioPagina ∧
      posicion / config.tamanioPagina < config.stackSize := by
  rcases posicion_aligned config _ posicion hs.apilada hmem with ⟨_, hlo, hhi⟩
  have hlimite := hs.limite
  have hpos := hs.admitido.positivo
  refine ⟨Int.ediv_nonneg hlo (Int.le_of_lt hpos), ?_⟩
  exact Int.ediv_lt_of_lt_mul hpos (by omega)

/-- A page of the stack is in a frame that is mapped to it. -/
theorem marcoDe_mapped (config : Config) (pcb : Pcb) (server : ServerState) (page : Int)
    (h : Admitido config pcb server) (hlo : 0 ≤ page) (hhi : page < config.stackSize) :
    ∃ i : Nat, marcoDe pcb server page = i ∧
      Mapped server.pageTable (usuario pcb) (page + pcb.pagesCode) i := by
  have hcodigo := h.codigo
  have hown := h.propias (page + pcb.pagesCode) (by omega) (by omega)
  rcases (mem_pagesOf _ _ _).mp hown with ⟨i, hi⟩
  have hmapped : Mapped server.pageTable (usuario pcb) (page + pcb.pagesCode) i := ⟨h.conocido, hi⟩
  have hbounds := mapped_bounds _ h.tabla _ _ _ hmapped
  exact getFrame_of_mapped _ _ _ i hmapped hbounds.1 hbounds.2

/-- The variables lie apart. -/
theorem celda_apart (config : Config) (s : Proceso) (p q : Int) (hs : Guarda config s)
    (hp : p ∈ posiciones config s.cpu.pcbActual) (hq : q ∈ posiciones config s.cpu.pcbActual)
    (hne : p ≠ q) :
    celda config s.cpu.pcbActual s.memoria p + 4 ≤ celda config s.cpu.pcbActual s.memoria q ∨
      celda config s.cpu.pcbActual s.memoria q + 4 ≤ celda config s.cpu.pcbActual s.memoria p := by
  have hadm := hs.admitido
  refine place_apart _ _ 4 p q (by decide) hadm.positivo hadm.multiplo
    (posicion_aligned config _ p hs.apilada hp).1 (posicion_aligned config _ q hs.apilada hq).1
    hne fun hframe => ?_
  rcases posicion_page config s p hs hp with ⟨hplo, hphi⟩
  rcases posicion_page config s q hs hq with ⟨hqlo, hqhi⟩
  rcases marcoDe_mapped config _ _ _ hadm hplo hphi with ⟨i, hi, hmapi⟩
  rcases marcoDe_mapped config _ _ _ hadm hqlo hqhi with ⟨j, hj, hmapj⟩
  -- One frame holds one page.
  have hij : i = j := by
    rw [hi, hj] at hframe
    exact Int.ofNat_inj.mp hframe
  rw [hij] at hmapi
  have hpage := (mapped_inj _ _ _ _ _ _ hmapi hmapj).2
  omega

/-! ### What the primitives do to main memory -/

/-- A request says what it is about. -/
theorem memoryRequest_decodes (r : Residue) (pcb : Pcb) (opcode : Opcode) (page offset : Int)
    (heap : Buf) (hpage : Short page) (hoffset : Short offset) :
    requestPage (memoryRequest r pcb opcode page offset tamanioVariable) heap = page ∧
      requestOffset (memoryRequest r pcb opcode page offset tamanioVariable) heap = offset ∧
      requestSize (memoryRequest r pcb opcode page offset tamanioVariable) heap = 4 := by
  have hpayload : (memoryRequest r pcb opcode page offset tamanioVariable).payload
      = encArgs [.h page, .h offset, .h 4] :=
    protocolPacket_serialPack _ r.buffer _ _ (serialPack_eq r.buffer 0 _)
  have hdecodes := request_of_payload _ heap page offset 4 hpayload
  rw [toShort_of_short page hpage, toShort_of_short offset hoffset] at hdecodes
  exact hdecodes

/-- The page and the offset that are asked for. -/
theorem direccion_eq (config : Config) (s : Proceso) (posicion : Int) (hs : Guarda config s)
    (hmem : posicion ∈ posiciones config s.cpu.pcbActual) :
    direccionPage config s.cpu.pcbActual posicion
        = posicion / config.tamanioPagina + s.cpu.pcbActual.pagesCode ∧
      direccionOffset config posicion = posicion % config.tamanioPagina ∧
      Short (posicion / config.tamanioPagina + s.cpu.pcbActual.pagesCode) ∧
      Short (posicion % config.tamanioPagina) := by
  have hadm := hs.admitido
  have hcodigo := hadm.codigo
  have hpaginas := hadm.paginas
  have hcorto := hadm.corto
  rcases posicion_page config s posicion hs hmem with ⟨hlo, hhi⟩
  -- No position is negative, so that the truncated division is the Euclidean one.
  have hnonneg := (posicion_aligned config _ posicion hs.apilada hmem).2.1
  have hoffset := Int.emod_nonneg posicion (Int.ne_of_gt hadm.positivo)
  have hbelow := Int.emod_lt_of_pos posicion hadm.positivo
  unfold Short at hpaginas hcorto ⊢
  refine ⟨?_, ?_, by omega, by omega⟩
  · rw [direccionPage, Int.tdiv_eq_ediv_of_nonneg hnonneg]
    exact toInt_of_lt _ (by omega) (by omega)
  · rw [direccionOffset, Int.tmod_eq_emod_of_nonneg hnonneg]
    exact toInt_of_lt _ hoffset (by omega)

/-- The two bytes at the front of a packet that has been read from memory. -/
theorem unpacki16_of_slice (packet : Packet) (heap main : Buf) (c : Int) (n : Nat) (hn : 2 ≤ n)
    (h : packet.payload = slice main c n) :
    unpacki16 (packet.pointer heap) 0 = unpacki16 main c := by
  have hcell : ∀ k : Nat, k < n → packet.pointer heap (k : Int) = main (c + (k : Int)) := by
    intro k hk
    rw [Packet.pointer, write_apply, h, slice_length, if_pos (by omega),
      List.getD_eq_getElem?_getD, List.getElem?_eq_getElem (by rw [slice_length]; omega)]
    simp only [Option.getD_some, slice_getElem, Int.sub_zero, Int.toNat_natCast]
  have hfirst := hcell 0 (by omega)
  have hsecond := hcell 1 (by omega)
  simp only [Nat.cast_zero, Int.add_zero] at hfirst
  simp only [Nat.cast_one] at hsecond
  unfold unpacki16
  rw [hfirst, Int.zero_add, hsecond]

/-- `dereferenciar` decodes the first two bytes of the variable. -/
theorem dereferenciar_value (config : Config) (r : Residue) (s : Proceso) (posicion : Int)
    (hs : Guarda config s) (hmem : posicion ∈ posiciones config s.cpu.pcbActual) :
    ∃ conn, Cpu.dereferenciar config r s.cpu s.memoria posicion
      = some ({ s.cpu with conn := conn }, s.memoria,
          unpacki16 s.memoria.main (celda config s.cpu.pcbActual s.memoria posicion)) := by
  rcases direccion_eq config s posicion hs hmem with ⟨hpage, hoffset, hshort, hshort'⟩
  have hadm := hs.admitido
  have hnonneg := Int.emod_nonneg posicion (Int.ne_of_gt hadm.positivo)
  unfold Cpu.dereferenciar
  rw [hpage, hoffset]
  extract_lets packet
  rcases memoryRequest_decodes r s.cpu.pcbActual .OP_ME_SOLBYTPAG _ _ r.server hshort hshort' with
    ⟨hreq, hreq', hsize⟩
  -- Four bytes at an offset inside the page are not refused.
  have hanswer := solBytPag_accepted s.memoria s.cpu.conn r.server packet
    (by rw [hreq']; omega) (by rw [hsize]; omega)
  rw [hsize, if_neg (by simp only [bufferCapacity]; omega)] at hanswer
  rw [hanswer]
  simp only [Option.some.injEq, Prod.mk.injEq, true_and]
  refine ⟨_, rfl, ?_⟩
  refine unpacki16_of_slice _ r.reply s.memoria.main _ 4 (by omega) ?_
  rw [reply_payload]
  refine (getBytes_slice _ _ _ _ _ _ (by rw [hreq']; exact hnonneg) (by decide)).trans ?_
  rw [hreq, hreq', hadm.marco]
  rfl

/-- `asignar` stores the two bytes of the value, and two more behind them. -/
theorem asignar_main (config : Config) (r : Residue) (s : Proceso) (posicion valor : Int)
    (hs : Guarda config s) (hmem : posicion ∈ posiciones config s.cpu.pcbActual) :
    ∃ conn main, Cpu.asignar config r s.cpu s.memoria posicion valor
        = ({ s.cpu with conn := conn }, { s.memoria with main := main }) ∧
      unpacki16 main (celda config s.cpu.pcbActual s.memoria posicion) = toShort valor ∧
      ∀ c, c + 4 ≤ celda config s.cpu.pcbActual s.memoria posicion ∨
          celda config s.cpu.pcbActual s.memoria posicion + 4 ≤ c →
        unpacki16 main c = unpacki16 s.memoria.main c := by
  rcases direccion_eq config s posicion hs hmem with ⟨hpage, hoffset, hshort, hshort'⟩
  have hadm := hs.admitido
  have hnonneg := Int.emod_nonneg posicion (Int.ne_of_gt hadm.positivo)
  unfold Cpu.asignar
  rw [hpage, hoffset]
  extract_lets page offset packet data m
  rcases memoryRequest_decodes r s.cpu.pcbActual .OP_ME_ALMBYTPAG _ _ r.server hshort hshort' with
    ⟨hreq, hreq', hsize⟩
  have hanswer := almBytPag_accepted s.memoria s.cpu.conn r.server packet r.serverData data
    (by rw [hreq']; omega) (by rw [hsize]; omega)
  -- The second packet has the two bytes of the value, with unknown ones behind them.
  have hdata : unpacki16 (data.pointer r.serverData) 0 = toShort valor := by
    refine unpacki16_of_reads _ 0 valor ?_
    have hreads := pointer_reads data r.serverData
    rwa [show data.payload = encH valor from
      protocolPacket_serialPack _ r.buffer [.h valor] _ (serialPack_eq r.buffer 0 _)] at hreads
  refine ⟨m.2.1, _, Prod.ext rfl (congrArg Prod.fst hanswer), ?_⟩
  have hstore := setBytes_apply s.memoria.marcoSize s.memoria.main
    (getFrame s.memoria.pageTable data.usrpid page) offset 4 (data.pointer r.serverData) hnonneg
    (by decide)
  have hcelda : getFrame s.memoria.pageTable data.usrpid page * s.memoria.marcoSize + offset
      = celda config s.cpu.pcbActual s.memoria posicion := by
    rw [hadm.marco]
    rfl
  rw [hcelda] at hstore
  rw [hreq, hreq', hsize]
  -- From here on it is about four cells and two of them.
  generalize celda config s.cpu.pcbActual s.memoria posicion = base at hstore ⊢
  refine ⟨?_, fun c hc => ?_⟩
  · have hfirst := hstore base
    have hsecond := hstore (base + 1)
    rw [if_pos (by omega), Int.sub_self] at hfirst
    rw [if_pos (by omega), show base + 1 - base = 0 + 1 by omega] at hsecond
    rw [← hdata]
    unfold unpacki16
    rw [hfirst, hsecond]
  · have hfirst := hstore c
    have hsecond := hstore (c + 1)
    rw [if_neg (by omega)] at hfirst
    rw [if_neg (by omega)] at hsecond
    unfold unpacki16
    rw [hfirst, hsecond]

/-! ### What the others do -/

/-- A request of another process leaves the frames of this one as they are, with what is in
    them. -/
theorem atender_ajeno (server : ServerState) (conn : Connection) (heap heapData : Buf)
    (pedido : Pedido) (a : ServerState × Connection × Packet) (pid : Int)
    (hok : TableOk server.pageTable) (hpid : 0 < pid) (hne : pedido.usrpid ≠ pid)
    (hconfined : ∀ packet data, pedido = .almBytPag packet data →
      Confined server data.usrpid (requestPage packet heap) (requestOffset packet heap)
        (requestSize packet heap))
    (h : pedido.atender server conn heap heapData = some a) :
    a.1.marcoSize = server.marcoSize ∧ TableOk a.1.pageTable ∧
      (∀ page, marks a.1.pageTable pid page = marks server.pageTable pid page) ∧
      ∀ page (i : Nat) c, Mapped server.pageTable pid page i →
        i * server.marcoSize ≤ c → c < (i + 1) * server.marcoSize → a.1.main c = server.main c := by
  have hzero : pid ≠ 0 := Int.ne_of_gt hpid
  cases pedido with
  | iniPro packet =>
      obtain rfl := Option.some.inj h
      exact ⟨rfl, tableOk_setPages _ _ _ hok,
        fun page => marks_setPages_of_ne _ _ _ _ (Ne.symm hne) hzero _, fun _ _ _ _ _ _ => rfl⟩
  | solBytPag packet lector =>
      have hsame := solBytPag_server server a.1 conn a.2.1 heap packet a.2.2 h
      rw [hsame]
      exact ⟨rfl, hok, fun _ => rfl, fun _ _ _ _ _ _ => rfl⟩
  | finPro packet =>
      obtain rfl := Option.some.inj h
      exact ⟨rfl, tableOk_clearPages _ _ hok,
        fun page => marks_clearPages_of_ne _ _ _ (Ne.symm hne) hzero _, fun _ _ _ _ _ _ => rfl⟩
  | almBytPag packet data =>
      obtain rfl := Option.some.inj h
      have hconf := hconfined packet data rfl
      by_cases hrejected : requestOffset packet heap < 0 ∨ requestSize packet heap ≤ 0
      · rw [almBytPag_rejected server conn heap packet heapData data hrejected]
        exact ⟨rfl, hok, fun _ => rfl, fun _ _ _ _ _ _ => rfl⟩
      · rw [not_or] at hrejected
        rw [almBytPag_accepted server conn heap packet heapData data hrejected.1 hrejected.2]
        refine ⟨rfl, hok, fun _ => rfl, fun page i c hmap hlo hhi => ?_⟩
        refine setBytes_of_notMem _ _ _ _ _ _ c fun hc => ?_
        -- The cells of the store are in a frame of its own process.
        rcases ownCell_of_accessed server hok _ _ _ _ hconf c hc with ⟨j, hmapj, hjlo, hjhi⟩
        have hij : (i : Int) = j := frame_cell_inj server.marcoSize i j
          (c - i * server.marcoSize) (c - j * server.marcoSize)
          ⟨by omega, by rw [Int.add_mul, Int.one_mul] at hhi; omega⟩
          ⟨by omega, by rw [Int.add_mul, Int.one_mul] at hjhi; omega⟩ (by omega)
        obtain rfl := Int.ofNat_inj.mp hij
        exact hne (mapped_inj _ _ _ _ _ _ hmapj hmap).1

/-! ### The invariant -/

/-- A new variable is added to those there are. -/
theorem posiciones_nueva (config : Config) (r : Residue) (s : State) (identificador posicion : Int)
    (hmem : posicion ∈ posiciones config s.pcbActual) :
    posicion ∈ posiciones config (definirVariable config r s identificador).1.pcbActual := by
  by_cases hroom : s.pcbActual.stackPointer + 4 ≤ config.stackSize * config.tamanioPagina
  · rcases definirVariable_room config r s identificador hroom with
      ⟨below, contexto, contexto', hstack, hmarco, _, hd⟩
    rw [hd]
    rcases hstack with hlast | ⟨hnil, _⟩
    · -- A variable is added to the last context, which keeps those that it has.
      simp only [posiciones, hlast, List.map_append, List.map_singleton, List.flatten_append,
        List.mem_append, List.flatten_singleton] at hmem ⊢
      rcases hmem with hbelow | hcontext
      · exact .inl hbelow
      · exact .inr (hmarco.mem_iff.mpr (List.mem_cons_of_mem _ hcontext))
    · -- Without a context there were no variables.
      rw [posiciones, hnil] at hmem
      exact absurd hmem List.not_mem_nil
  · rw [definirVariable_over config r s identificador (by omega)]
    exact hmem

/-- A new variable changes nothing of the process but its stack. -/
theorem definirVariable_rest (config : Config) (r : Residue) (s : State) (identificador : Int) :
    (definirVariable config r s identificador).1.pcbActual.pagesCode = s.pcbActual.pagesCode ∧
      (definirVariable config r s identificador).1.pcbActual.idProcess = s.pcbActual.idProcess := by
  simp only [definirVariable]
  split
  · exact ⟨rfl, rfl⟩
  · exact ⟨rfl, rfl⟩

/-- An assignment is to a variable, of which it stores the first two bytes. -/
theorem paso_asignar (config : Config) (r : Residue) (s u : Proceso) (posicion valor : Int)
    (hs : Guarda config s) (h : s.step config (.asignar r posicion valor) = some u) :
    posicion ∈ posiciones config s.cpu.pcbActual ∧ u.cpu.pcbActual = s.cpu.pcbActual ∧
      u.memoria.pageTable = s.memoria.pageTable ∧ u.memoria.marcoSize = s.memoria.marcoSize ∧
      u.valores = Function.update s.valores posicion (some valor) ∧
      unpacki16 u.memoria.main (celda config s.cpu.pcbActual s.memoria posicion)
        = toShort valor ∧
      ∀ c, c + 4 ≤ celda config s.cpu.pcbActual s.memoria posicion ∨
          celda config s.cpu.pcbActual s.memoria posicion + 4 ≤ c →
        unpacki16 u.memoria.main c = unpacki16 s.memoria.main c := by
  rw [Proceso.step] at h
  by_cases hmem : posicion ∈ posiciones config s.cpu.pcbActual
  · rcases asignar_main config r s posicion valor hs hmem with
      ⟨conn, main, hasignar, hself, hothers⟩
    rw [if_pos hmem, hasignar] at h
    obtain rfl := Option.some.inj h
    exact ⟨hmem, rfl, rfl, rfl, rfl, hself, hothers⟩
  · rw [if_neg hmem] at h
    exact absurd h (by simp only [reduceCtorEq, not_false_eq_true])

/-- Where a variable is depends on the table only. -/
theorem celda_congr (config : Config) (pcb : Pcb) (server server' : ServerState) (posicion : Int)
    (h : server'.pageTable = server.pageTable) :
    celda config pcb server' posicion = celda config pcb server posicion := by
  simp only [celda, place, marcoDe, h]

/-- A new variable has no value yet, and those there are keep theirs. -/
theorem guarda_definirVariable (config : Config) (r : Residue) (s : Proceso) (identificador : Int)
    (hs : Guarda config s) :
    Guarda config { s with cpu := (Cpu.definirVariable config r s.cpu identificador).1 } := by
  rcases definirVariable_rest config r s.cpu identificador with ⟨hcode, hpid⟩
  have husuario : usuario (Cpu.definirVariable config r s.cpu identificador).1.pcbActual
      = usuario s.cpu.pcbActual := by rw [usuario, hpid, usuario]
  have hmov := definirVariable_movimiento config r s.cpu identificador
  have hadm := hs.admitido
  refine ⟨⟨hadm.multiplo, hadm.positivo, hadm.corto, hadm.marco, ?_, hadm.pila, ?_, ?_,
    hadm.tabla, ?_⟩, apilada_step config _ _ hmov hs.apilada,
    stackPointer_step config _ _ hmov hs.limite, fun posicion valor hvalor => ?_⟩
  · rw [hcode]
    exact hadm.codigo
  · rw [hcode]
    exact hadm.paginas
  · rw [husuario]
    exact hadm.conocido
  · rw [hcode, husuario]
    exact hadm.propias
  · rcases hs.valores posicion valor hvalor with ⟨hmem, hread⟩
    refine ⟨posiciones_nueva config r s.cpu identificador posicion hmem, ?_⟩
    -- The frames of the stack are where they were.
    have hmarco : marcoDe (Cpu.definirVariable config r s.cpu identificador).1.pcbActual s.memoria
        = marcoDe s.cpu.pcbActual s.memoria := by
      funext page
      rw [marcoDe, husuario, hcode, marcoDe]
    simp only [celda, hmarco]
    exact hread

/-- An assignment puts the value where the variable is, and the others lie apart from it. -/
theorem guarda_asignar (config : Config) (r : Residue) (s u : Proceso) (posicion valor : Int)
    (hs : Guarda config s) (h : s.step config (.asignar r posicion valor) = some u) :
    Guarda config u := by
  rcases paso_asignar config r s u posicion valor hs h with
    ⟨hmem, hpcb, htabla, hmarco, hvalores, hself, hothers⟩
  have hadm := hs.admitido
  have hapilada := hs.apilada
  have hlimite := hs.limite
  refine ⟨⟨hadm.multiplo, hadm.positivo, hadm.corto, hmarco.trans hadm.marco, ?_, hadm.pila,
    ?_, ?_, ?_, ?_⟩, ?_, ?_, fun otra valor' hvalor => ?_⟩
  · exact hpcb ▸ hadm.codigo
  · exact hpcb ▸ hadm.paginas
  · exact hpcb ▸ hadm.conocido
  · exact htabla ▸ hadm.tabla
  · rw [hpcb, htabla]
    exact hadm.propias
  · exact hpcb ▸ hapilada
  · exact hpcb ▸ hlimite
  · -- The variable assigned has its value, and the cells of the others are apart from its own.
    rw [hpcb, celda_congr config _ _ _ otra htabla]
    rw [hvalores] at hvalor
    by_cases hsame : otra = posicion
    · subst hsame
      rw [Function.update_self, Option.some.injEq] at hvalor
      subst hvalor
      exact ⟨hmem, hself⟩
    · rw [Function.update_of_ne hsame] at hvalor
      rcases hs.valores otra valor' hvalor with ⟨hotra, hread⟩
      have hapart := celda_apart config s otra posicion hs hotra hmem hsame
      exact ⟨hotra, (hothers _ hapart).trans hread⟩

/-- A request of another process leaves the table's entries for this one alone, and so the
    cells its values are in. -/
theorem guarda_otro (config : Config) (s : Proceso) (conn : Connection) (heap heapData : Buf)
    (pedido : Pedido) (a : ServerState × Connection × Packet) (hs : Guarda config s)
    (hajeno : Ajeno s (.otro conn heap heapData pedido))
    (ha : pedido.atender s.memoria conn heap heapData = some a) :
    Guarda config { s with memoria := a.1 } := by
  have hadm := hs.admitido
  have hconfined : ∀ packet data, pedido = .almBytPag packet data →
      Confined s.memoria data.usrpid (requestPage packet heap) (requestOffset packet heap)
        (requestSize packet heap) := by
    rintro packet data rfl
    exact hajeno.2
  rcases atender_ajeno s.memoria conn heap heapData pedido a (usuario s.cpu.pcbActual)
      hadm.tabla hadm.conocido hajeno.1 hconfined ha with ⟨hmarco, htabla, hmarks, hmain⟩
  have hframe : marcoDe s.cpu.pcbActual a.1 = marcoDe s.cpu.pcbActual s.memoria := by
    funext page
    exact getFrame_congr _ _ _ _ (hmarks _)
  refine ⟨⟨hadm.multiplo, hadm.positivo, hadm.corto, hmarco.trans hadm.marco, hadm.codigo,
    hadm.pila, hadm.paginas, hadm.conocido, htabla, fun page hlo hhi => ?_⟩, hs.apilada,
    hs.limite, fun posicion valor hvalor => ?_⟩
  · rw [mem_pagesOf_iff_marks, hmarks, ← mem_pagesOf_iff_marks]
    exact hadm.propias page hlo hhi
  · rcases hs.valores posicion valor hvalor with ⟨hmem, hread⟩
    refine ⟨hmem, ?_⟩
    have hcelda : celda config s.cpu.pcbActual a.1 posicion
        = celda config s.cpu.pcbActual s.memoria posicion := by rw [celda, hframe, celda]
    rw [hcelda, ← hread]
    -- Both bytes are in the frame of the page, and the frame is not touched.
    rcases posicion_page config s posicion hs hmem with ⟨hlo, hhi⟩
    rcases marcoDe_mapped config _ _ _ hadm hlo hhi with ⟨i, hi, hmap⟩
    have hcell : ∀ k : Int, 0 ≤ k → k < 4 →
        a.1.main (celda config s.cpu.pcbActual s.memoria posicion + k)
          = s.memoria.main (celda config s.cpu.pcbActual s.memoria posicion + k) := by
      intro k hk hk'
      have hinside := place_inside (marcoDe s.cpu.pcbActual s.memoria) config.tamanioPagina 4
        posicion k (by decide) hadm.positivo hadm.multiplo
        (posicion_aligned config _ posicion hs.apilada hmem).1 hk hk'
      rw [hi, ← hadm.marco] at hinside
      exact hmain _ i _ hmap (hadm.marco ▸ hinside.1) (hadm.marco ▸ hinside.2)
    have hfirst := hcell 0 (by decide) (by decide)
    have hsecond := hcell 1 (by decide) (by decide)
    rw [Int.add_zero] at hfirst
    unfold unpacki16
    rw [hfirst, hsecond]

/-- Every step keeps the values where they are. -/
theorem guarda_step (config : Config) (s u : Proceso) (accion : Accion) (hs : Guarda config s)
    (hajeno : Ajeno s accion) (h : s.step config accion = some u) : Guarda config u := by
  cases accion with
  | definirVariable r identificador =>
      rw [Proceso.step, Option.some.injEq] at h
      rw [← h]
      exact guarda_definirVariable config r s identificador hs
  | asignar r posicion valor => exact guarda_asignar config r s u posicion valor hs h
  | dereferenciar r posicion =>
      rw [Proceso.step] at h
      by_cases hmem : posicion ∈ posiciones config s.cpu.pcbActual
      · rcases dereferenciar_value config r s posicion hs hmem with ⟨conn, hvalue⟩
        rw [if_pos hmem, hvalue] at h
        obtain rfl := Option.some.inj h
        exact ⟨hs.admitido, hs.apilada, hs.limite, hs.valores⟩
      · rw [if_neg hmem] at h
        exact absurd h (by simp only [reduceCtorEq, not_false_eq_true])
  | otro conn heap heapData pedido =>
      rcases Option.map_eq_some_iff.mp h with ⟨a, ha, rfl⟩
      exact guarda_otro config s conn heap heapData pedido a hs hajeno ha

/-! ### Runs -/

theorem toShort_eq_self_iff (v : Int) : toShort v = v ↔ Short v := by
  constructor
  · intro h
    rw [← h]
    exact short_toShort v
  · exact toShort_of_short v

/-- What a variable is read as. -/
theorem lee_eq (config : Config) (r : Residue) (s : Proceso) (posicion : Int)
    (hs : Guarda config s) (hmem : posicion ∈ posiciones config s.cpu.pcbActual) :
    s.lee config r posicion
      = some (unpacki16 s.memoria.main (celda config s.cpu.pcbActual s.memoria posicion)) := by
  rcases dereferenciar_value config r s posicion hs hmem with ⟨conn, hvalue⟩
  rw [Proceso.lee, hvalue]
  rfl

/-- A step reads what was assigned exactly when two bytes can carry it, and an assignment
    never changes another variable. -/
theorem fiel_iff_cabe (config : Config) (s u : Proceso) (accion : Accion) (hs : Guarda config s)
    (h : s.step config accion = some u) : Fiel config s accion ↔ Cabe s accion := by
  cases accion with
  | definirVariable r identificador => exact Iff.rfl
  | otro conn heap heapData pedido => exact Iff.rfl
  | dereferenciar r posicion =>
      refine forall₂_congr fun valor hvalor => ?_
      rcases hs.valores posicion valor hvalor with ⟨hmem, hread⟩
      rw [lee_eq config r s posicion hs hmem, hread, Option.some.injEq]
      exact toShort_eq_self_iff valor
  | asignar r posicion valor =>
      refine iff_of_true (fun v hv r' otra hotra hne => ?_) trivial
      -- What is read before and after is read off the same cells.
      have hguarda := guarda_step config s v (.asignar r posicion valor) hs trivial hv
      rcases paso_asignar config r s v posicion valor hs hv with
        ⟨hmem, hpcb, htabla, _, _, _, hothers⟩
      have hotra' : otra ∈ posiciones config v.cpu.pcbActual := by rwa [hpcb]
      rw [lee_eq config r' v otra hguarda hotra', lee_eq config r' s otra hs hotra, hpcb,
        celda_congr config _ _ _ otra htabla]
      exact congrArg some (hothers _ (celda_apart config s otra posicion hs hotra hmem hne))

set_option maxRecDepth 4000

/-- A process with two pages of stack. -/
def variableStart : Proceso :=
  { cpu := callStart.1
    memoria :=
      { marcoSize := 4
        pageTable := [{ pid := 2, page := 0 }, { pid := 1, page := 1 }, { pid := 1, page := 0 }]
        main := fun _ => 7 }
    valores := fun _ => none }

/-- A variable is defined and given a value, another process stores four bytes, and the
    variable is read. -/
def variableRun (valor : Int) : List Accion :=
  [.definirVariable callResidue 97, .asignar callResidue 0 valor,
   .otro sampleConnection (fun _ => 0) (fun _ => 0)
     (.almBytPag { paquete .OP_ME_ALMBYTPAG [0, 0, 4] with
         header := { syspid := .CPU, usrpid := 2, opcode := .OP_ME_ALMBYTPAG } }
       { paquete .OP_ME_ALMBYTPAG [1, 2] with
         header := { syspid := .CPU, usrpid := 2, opcode := .OP_ME_ALMBYTPAG } }),
   .dereferenciar callResidue 0]

/-- A value of seventeen bits is not read back. -/
theorem large_value_lost : ¬ Along (Proceso.step callConfig) (Fiel callConfig) variableStart
    (variableRun 70000) := by
  intro h
  have hlast := along_append (Proceso.step callConfig) (Fiel callConfig) variableStart _
    ((variableRun 70000).take 3) ((variableRun 70000).drop 3) h rfl
  have hread := hlast.1 70000 rfl
  exact absurd hread (by decide)

/-- In a run of a process that begins without variables, among clients that stay within their
    pages, every variable that is read has the value assigned last, and no assignment changes
    another variable, exactly when every value that is read back is one that two bytes can
    carry. -/
theorem variables_hold_iff (config : Config) (s₀ s : Proceso) (acciones : List Accion)
    (hadmitido : Admitido config s₀.cpu.pcbActual s₀.memoria)
    (hstack : s₀.cpu.pcbActual.stack = []) (hpointer : s₀.cpu.pcbActual.stackPointer = 0)
    (hvalores : ∀ posicion, s₀.valores posicion = none)
    (hajeno : Along (Proceso.step config) Ajeno s₀ acciones)
    (hrun : run (Proceso.step config) s₀ acciones = some s) :
    Along (Proceso.step config) (Fiel config) s₀ acciones ↔
      Along (Proceso.step config) Cabe s₀ acciones := by
  refine along_congr_along (Proceso.step config) Ajeno Cabe (Fiel config) (Guarda config)
    (fun s accion u hs ha hu => guarda_step config s u accion hs ha hu)
    (fun s accion u hs _ hu => fiel_iff_cabe config s u accion hs hu) s₀ s acciones
    ⟨hadmitido, ?_, ?_, fun posicion valor hvalor => ?_⟩ hajeno hrun
  · rw [Apilada, hstack, hpointer]
    rfl
  · rw [hpointer]
    exact Int.mul_nonneg hadmitido.pila (Int.le_of_lt hadmitido.positivo)
  · rw [hvalores posicion] at hvalor
    exact absurd hvalor (by simp only [reduceCtorEq, not_false_eq_true])

theorem variableStart_admitido :
    Admitido callConfig variableStart.cpu.pcbActual variableStart.memoria := by
  refine ⟨by decide, by decide, ⟨by decide, by decide⟩, rfl, by decide, by decide,
    ⟨by decide, by decide⟩, by decide, fun row hrow => ?_, fun page hlo hhi => ?_⟩
  · simp only [variableStart, List.mem_cons, List.not_mem_nil, or_false] at hrow
    rcases hrow with rfl | rfl | rfl
    · exact .inr ⟨by decide, by decide, by decide⟩
    · exact .inr ⟨by decide, by decide, by decide⟩
    · exact .inr ⟨by decide, by decide, by decide⟩
  · have hpages : pagesOf variableStart.memoria.pageTable (usuario variableStart.cpu.pcbActual)
        = [1, 0] := rfl
    have htop : page < 2 := hhi
    rw [hpages, List.mem_cons, List.mem_singleton]
    omega

/-- A value of eight bits is read back, whatever the other process has stored. -/
theorem variables_hold_small : Along (Proceso.step callConfig) (Fiel callConfig) variableStart
    (variableRun 5) := by
  refine (variables_hold_iff callConfig variableStart _ (variableRun 5) variableStart_admitido rfl
    rfl (fun _ => rfl) ?_ rfl).mpr ?_
  · refine ⟨trivial, fun u hu => ⟨trivial, fun v hv => ⟨⟨?_, .inr (.inr ⟨⟨0, ?_⟩, ?_⟩)⟩,
      fun w _ => ⟨trivial, fun _ _ => trivial⟩⟩⟩⟩
    · obtain rfl := Option.some.inj hu
      obtain rfl := Option.some.inj hv
      decide
    · obtain rfl := Option.some.inj hu
      obtain rfl := Option.some.inj hv
      exact ⟨by decide, rfl⟩
    · obtain rfl := Option.some.inj hu
      obtain rfl := Option.some.inj hv
      decide
  · refine ⟨trivial, fun u hu => ⟨trivial, fun v hv => ⟨trivial, fun w hw =>
      ⟨fun valor hvalor => ?_, fun _ _ => trivial⟩⟩⟩⟩
    obtain rfl := Option.some.inj hu
    obtain rfl := Option.some.inj hv
    obtain rfl := Option.some.inj hw
    obtain rfl := Option.some.inj hvalor
    exact ⟨by decide, by decide⟩

end Cpu

end Esther
