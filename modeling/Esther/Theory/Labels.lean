import Esther.Theory.Messages
import Esther.Theory.Migration
import Esther.Theory.Room

/-!
# Labels across the Wire

Whether a label of a program is found on the CPU that executes it.

The names of the labels go three ways. `crear_pcb_proceso` reads them from the block that
the parser has written, the encoder and the decoder carry them to the CPU, and
`busquedaEtiqueta` looks one up. The first two keep the table as it is, as long as the
control block fits the buffer it is packed into. The third compares the name with the
first entry only, and says that there is no such label when they differ.

## Main definitions

* `Lists`: The metadata of a program lists a table of labels.
* `Resuelve`: On a control block every label of a table is found, and nothing else.
* `Resuelta`: This is so on the control block that a CPU is sent.

## Theorems

* `leerTags_of_reads`: Reading the block.
* `serialUnpackPcb_tags`: The table after decoding.
* `resuelve_iff`: The search.
* `received_tags`: The table on the CPU.
* `second_label_lost`: A program with two labels.
* `labels_resolve_iff`: The three together.
-/

namespace Esther

open Cells Serial

/-- The metadata lists the labels and functions of the table: one name after the other,
    each with its terminator and four bytes of its own. -/
structure Lists (parser : Parser) (program : MetadataProgram) (tabla : List ProgramTag) : Prop where
  count : program.cantidadDeEtiquetas + program.cantidadDeFunciones = tabla.length
  size : 0 ≤ program.instruccionesSize
  line : 64 ≤ parser.lineSize
  distinct : (tabla.map ProgramTag.name).Nodup
  names : ∀ tag ∈ tabla, (0 : UInt8) ∉ tag.name ∧ tag.name.length ≤ 63
  PCs : ∀ tag ∈ tabla, 0 ≤ tag.PC ∧ tag.PC < 2 ^ 15
  block : ∃ puntero : ProgramTag → List UInt8, (∀ tag, (puntero tag).length = 4) ∧
    Reads program.etiquetas 0 (tabla.flatMap fun tag => tag.name ++ 0 :: puntero tag)
  buscar : ∀ tag ∈ tabla, parser.metadataBuscarEtiqueta tag.name program.etiquetas
    program.etiquetasSize = tag.PC

/-- The search finds every label of the table at its `PC`, and `-1` for other names. -/
def Resuelve (config : Cpu.Config) (tabla : List ProgramTag) (pcb : Pcb) : Prop :=
  (∀ tag ∈ tabla, Cpu.busquedaEtiqueta config pcb tag.name = tag.PC) ∧
    ∀ nombre, (∀ tag ∈ tabla, tag.name ≠ cstr nombre) →
      Cpu.busquedaEtiqueta config pcb nombre = config.puntero (-1)

/-- The control block can be sent, and the search is right on what a CPU makes of it. -/
def Resuelta (config : Cpu.Config) (tabla : List ProgramTag) (r : Kernel.Residue)
    (rc : Cpu.Residue) (s : Cpu.State) (pcb : Pcb) : Prop :=
  ∃ packet, Kernel.sendPcb r pcb = some packet ∧
    Resuelve config tabla (Cpu.recibirMensajesDeKernel rc s packet).pcbActual

/-! ### Reading the block -/

/-- A name is read up to its terminator, if there is room for it. -/
theorem leerTag_of_reads (etiquetas : Buf) (nombre : List UInt8) (room : Nat) (q : Int)
    (hzero : (0 : UInt8) ∉ nombre) (hroom : nombre.length < room)
    (h : Reads etiquetas q (nombre ++ [0])) :
    Kernel.leerTag etiquetas room q = some (nombre, q + nombre.length + 1) := by
  induction nombre generalizing room q with
  | nil =>
      cases room with
      | zero => exact absurd hroom (Nat.not_lt_zero _)
      | succ room =>
          -- The byte after the name ends it.
          have hend : etiquetas q = 0 := ((reads_cons _ _ _ _).mp h).1
          rw [Kernel.leerTag, if_pos hend, List.length_nil, Int.natCast_zero, Int.add_zero]
  | cons b nombre ih =>
      cases room with
      | zero => exact absurd hroom (Nat.not_lt_zero _)
      | succ room =>
          rcases (reads_cons _ _ _ _).mp h with ⟨hb, hrest⟩
          rw [List.mem_cons, not_or] at hzero
          rw [List.length_cons] at hroom
          -- A byte of the name, which is none of the ends, and the rest of it.
          have htail := ih room (q + 1) hzero.2 (by omega) hrest
          rw [Kernel.leerTag, hb, if_neg (fun hc => hzero.1 hc.symm), htail, List.length_cons]
          simp only [Nat.cast_add, Nat.cast_one, Option.some.injEq, Prod.mk.injEq, true_and]
          omega

/-- The loop of `crear_pcb_proceso` reads the table. -/
theorem leerTags_of_reads (parser : Parser) (program : MetadataProgram)
    (tabla : List ProgramTag) (puntero : ProgramTag → List UInt8) (q : Int)
    (hline : 64 ≤ parser.lineSize)
    (hnames : ∀ tag ∈ tabla, (0 : UInt8) ∉ tag.name ∧ tag.name.length ≤ 63)
    (hbuscar : ∀ tag ∈ tabla, parser.metadataBuscarEtiqueta tag.name program.etiquetas
      program.etiquetasSize = tag.PC)
    (hpuntero : ∀ tag, (puntero tag).length = 4)
    (h : Reads program.etiquetas q (tabla.flatMap fun tag => tag.name ++ 0 :: puntero tag)) :
    Kernel.leerTags parser program tabla.length q = some tabla := by
  induction tabla generalizing q with
  | nil => rfl
  | cons tag tabla ih =>
      rcases hnames tag List.mem_cons_self with ⟨hzero, hlength⟩
      rw [List.flatMap_cons, show tag.name ++ 0 :: puntero tag
        = tag.name ++ [0] ++ puntero tag by simp only [List.append_assoc, List.singleton_append],
        reads_append, reads_append] at h
      rcases h with ⟨⟨hname, _⟩, hrest⟩
      have hread := leerTag_of_reads program.etiquetas tag.name parser.lineSize q hzero
        (by omega) hname
      -- The four bytes behind the terminator are skipped.
      have hnext : q + ((tag.name ++ [0] ++ puntero tag).length : Int)
          = q + tag.name.length + 1 + 4 := by
        rw [List.length_append, List.length_append, hpuntero, List.length_singleton]
        omega
      rw [hnext] at hrest
      have htail := ih _ (fun t ht => hnames t (List.mem_cons_of_mem _ ht))
        (fun t ht => hbuscar t (List.mem_cons_of_mem _ ht)) hrest
      rw [List.length_cons, Kernel.leerTags, hread]
      simp only [htail, hbuscar tag List.mem_cons_self]

/-- The control block of a program has its table of labels. -/
theorem crearPcbProceso_tags (parser : Parser) (config : Kernel.Config) (k k' : Kernel.State)
    (program : MetadataProgram) (pcb : Pcb) (tabla : List ProgramTag)
    (hlists : Lists parser program tabla)
    (h : Kernel.crearPcbProceso parser config k program = some (k', pcb)) :
    pcb.indexTag = tabla ∧ pcb.tags = tabla.length ∧
      pcb.instructions = program.instruccionesSize := by
  rcases hlists.block with ⟨puntero, hpuntero, hreads⟩
  -- The loop over the block reads the names, and asks the library for each instruction.
  have htags := leerTags_of_reads parser program tabla puntero 0 hlists.line hlists.names
    hlists.buscar hpuntero hreads
  simp only [Kernel.crearPcbProceso, hlists.count, Int.toNat_natCast, htags] at h
  split at h
  · exact absurd h (by simp only [reduceCtorEq, not_false_eq_true])
  · rw [Option.some.injEq, Prod.mk.injEq] at h
    rw [← h.2]
    exact ⟨rfl, rfl, rfl⟩

/-! ### The wire -/

/-- Where the loop over the code index leaves its offset does not depend on what it has
    read. -/
theorem unpackCodeLoop_offset (buf : Buf) (n : Nat) (tam : Int) (hlo : 0 ≤ tam)
    (hfit : tam + 4 * n < 2 ^ 31) : (unpackCodeLoop buf n tam).2 = tam + 4 * n := by
  induction n generalizing tam with
  | zero => rw [unpackCodeLoop, Int.natCast_zero, Int.mul_zero, Int.add_zero]
  | succ n ih =>
      rw [Nat.cast_add, Nat.cast_one] at hfit ⊢
      rw [unpackCodeLoop]
      simp only
      rw [toInt_toInt_add, toInt_of_lt _ (by omega) (by omega), ih _ (by omega) (by omega)]
      omega

theorem encInstructions_length (entries : List Instruction) :
    (entries.flatMap encInstruction).length = 4 * entries.length := by
  induction entries with
  | nil => rfl
  | cons entry entries ih =>
      rw [List.flatMap_cons, List.length_append, ih, encInstruction_length, List.length_cons]
      omega

/-- The table of labels is decoded as it was encoded, whatever the rest of the block looks
    like, if it fits the buffer. -/
theorem serialUnpackPcb_tags (buf : Buf) (pcb : Pcb) (hinstr : 0 ≤ pcb.instructions)
    (htags : pcb.tags = pcb.indexTag.length)
    (hnames : ∀ tag ∈ pcb.indexTag, (0 : UInt8) ∉ tag.name ∧ tag.name.length ≤ 63 ∧ Short tag.PC)
    (hfit : pcbBytes pcb ≤ bufferCapacity) (h : Reads buf 0 (encPcb pcb)) :
    (serialUnpackPcb buf).indexTag = pcb.indexTag ∧ (serialUnpackPcb buf).tags = pcb.tags := by
  have hlength := encPcb_length pcb
  rw [encPcb, entries_of_length _ _ htags] at h hlength
  simp only [List.length_append, encHeader_length, encInstructions_length, entries_length]
    at hlength
  -- A label takes four bytes at least, so neither count leaves its field.
  have hcount : ∀ ts : List ProgramTag, (∀ tag ∈ ts, (0 : UInt8) ∉ tag.name) →
      ts.length ≤ (ts.flatMap encTag).length := by
    intro ts hts
    induction ts with
    | nil => exact Nat.zero_le _
    | cons tag ts ih =>
        have htail := ih fun t ht => hts t (List.mem_cons_of_mem _ ht)
        have htag := encTag_length tag (hts tag List.mem_cons_self)
        rw [List.flatMap_cons, List.length_append, List.length_cons]
        omega
  have hmany := hcount pcb.indexTag fun tag htag => (hnames tag htag).1
  rw [bufferCapacity] at hfit
  rw [reads_append, reads_append, reads_append] at h
  rcases h with ⟨⟨⟨hheader, _⟩, htable⟩, _⟩
  simp only [List.length_append, encHeader_length, encInstructions_length, entries_length,
    Int.zero_add] at htable
  have hfield := unpackFields_of_reads buf (Pcb.header pcb) 0 hheader
  have hunInstr : unpacki16 buf 10 = pcb.instructions :=
    (hfield 5 (show 5 < 9 by omega)).trans
      (toShort_of_short _ ⟨show -2 ^ 15 ≤ pcb.instructions by omega,
        show pcb.instructions < 2 ^ 15 by omega⟩)
  have hunTags : unpacki16 buf 12 = pcb.tags :=
    (hfield 6 (show 6 < 9 by omega)).trans
      (toShort_of_short _ ⟨show -2 ^ 15 ≤ pcb.tags by omega, show pcb.tags < 2 ^ 15 by omega⟩)
  have hoffset := unpackCodeLoop_offset buf pcb.instructions.toNat 18 (by omega) (by omega)
  have hloop := unpackTagLoop_of_reads buf pcb.indexTag (18 + 4 * pcb.instructions.toNat)
    (by omega) (by omega) hnames (by
      rw [show (18 : Int) + 4 * (pcb.instructions.toNat : Int)
        = ((18 + 4 * pcb.instructions.toNat : Nat) : Int) by omega]
      exact htable)
  have hnt : pcb.tags.toNat = pcb.indexTag.length := by omega
  simp only [serialUnpackPcb, hunInstr, hunTags, hoffset, hnt, hloop, and_self]

/-! ### The search -/

/-- The search is right exactly on tables of one label or none: it compares a name with the
    first label only. -/
theorem resuelve_iff (config : Cpu.Config) (tabla : List ProgramTag) (pcb : Pcb)
    (hindex : pcb.indexTag = tabla) (htags : pcb.tags = tabla.length)
    (hdistinct : (tabla.map ProgramTag.name).Nodup)
    (hnames : ∀ tag ∈ tabla, (0 : UInt8) ∉ tag.name)
    (hPCs : ∀ tag ∈ tabla, 0 ≤ tag.PC ∧ tag.PC < 2 ^ 15)
    (hpuntero : ∀ x, 0 ≤ x → x < 2 ^ 15 → config.puntero x = x)
    (hnone : ∀ x, 0 ≤ x → x < 2 ^ 15 → config.puntero (-1) ≠ x) :
    Resuelve config tabla pcb ↔ tabla.length ≤ 1 := by
  cases tabla with
  | nil =>
      refine iff_of_true ⟨fun tag htag => absurd htag List.not_mem_nil, fun nombre _ => ?_⟩
        (Nat.zero_le 1)
      rw [Cpu.busquedaEtiqueta, htags, List.length_nil, if_pos (by omega)]
  | cons first tabla =>
      have hsearch : ∀ nombre, Cpu.busquedaEtiqueta config pcb nombre
          = if first.name = cstr nombre then first.PC else config.puntero (-1) := by
        intro nombre
        have hfirst := hPCs first List.mem_cons_self
        rw [Cpu.busquedaEtiqueta, htags, List.length_cons, if_neg (by omega), hindex]
        simp only
        rw [cstr_of_notMem _ (hnames first List.mem_cons_self), hpuntero _ hfirst.1 hfirst.2]
      cases tabla with
      | nil =>
          refine iff_of_true ⟨fun tag htag => ?_, fun nombre hother => ?_⟩ (Nat.le_refl 1)
          · rw [List.mem_singleton.mp htag, hsearch,
              cstr_of_notMem _ (hnames first List.mem_cons_self), if_pos rfl]
          · rw [hsearch, if_neg (hother first List.mem_cons_self)]
      | cons second tabla =>
          -- The second label is not looked at.
          refine iff_of_false (fun h => ?_) (by
            rw [List.length_cons, List.length_cons]
            omega)
          have hmem : second ∈ first :: second :: tabla :=
            List.mem_cons_of_mem _ List.mem_cons_self
          have hne : first.name ≠ second.name := by
            rw [List.map_cons, List.map_cons, List.nodup_cons, List.mem_cons, not_or] at hdistinct
            exact hdistinct.1.1
          have hfound := h.1 second hmem
          rw [hsearch, cstr_of_notMem _ (hnames second hmem), if_neg hne] at hfound
          exact hnone _ (hPCs second hmem).1 (hPCs second hmem).2 hfound

/-! ### The three together -/

/-- What the control block of a program takes on the wire. -/
theorem crearPcbProceso_bytes (parser : Parser) (config : Kernel.Config) (k k' : Kernel.State)
    (program : MetadataProgram) (pcb : Pcb) (tabla : List ProgramTag)
    (hlists : Lists parser program tabla)
    (h : Kernel.crearPcbProceso parser config k program = some (k', pcb)) :
    pcbBytes pcb = 20 + 4 * program.instruccionesSize.toNat
      + (tabla.map fun tag => tag.name.length + 4).sum := by
  rcases crearPcbProceso_tags parser config k k' program pcb tabla hlists h with
    ⟨hindex, htags, hinstr⟩
  have hstack := (Cpu.crearPcbProceso_stack parser config k k' program pcb h).1
  have hmap : ((List.range pcb.tags.toNat).map fun i =>
      (cstr (pcb.indexTag.getD i default).name).length + 4)
        = tabla.map fun tag => tag.name.length + 4 := by
    -- The table has as many labels as are counted.
    have hentries := entries_of_length pcb.indexTag pcb.tags (by rw [htags, hindex])
    have hover : ((List.range pcb.tags.toNat).map fun i =>
        (cstr (pcb.indexTag.getD i default).name).length + 4)
          = (entries pcb.indexTag pcb.tags).map fun tag => (cstr tag.name).length + 4 := by
      rw [entries, List.map_map]
      rfl
    rw [hover, hentries, hindex]
    refine List.map_congr_left fun tag htag => ?_
    rw [cstr_of_notMem _ (hlists.names tag htag).1]
  rw [Cpu.pcbBytes_eq, Cpu.programBytes, hmap, Cpu.totalVivas, hstack, hinstr]
  rfl

/-- A CPU that is sent a control block has its table of labels. -/
theorem received_tags (r : Kernel.Residue) (rc : Cpu.Residue) (s : Cpu.State) (pcb : Pcb)
    (packet : Packet) (hsent : Kernel.sendPcb r pcb = some packet)
    (hinstr : 0 ≤ pcb.instructions) (htags : pcb.tags = pcb.indexTag.length)
    (hnames : ∀ tag ∈ pcb.indexTag, (0 : UInt8) ∉ tag.name ∧ tag.name.length ≤ 63 ∧ Short tag.PC)
    (hfit : pcbBytes pcb ≤ bufferCapacity) :
    (Cpu.recibirMensajesDeKernel rc s packet).pcbActual.indexTag = pcb.indexTag ∧
      (Cpu.recibirMensajesDeKernel rc s packet).pcbActual.tags = pcb.tags := by
  rcases sendPcb_carries r pcb packet hsent with ⟨hop, hcarries⟩
  have hreads := pointer_reads packet rc.reply
  unfold CarriesPcb at hcarries
  rw [hcarries] at hreads
  -- The packet is decoded where it was received.
  have hreceived : (Cpu.recibirMensajesDeKernel rc s packet).pcbActual
      = serialUnpackPcb (packet.pointer rc.reply) := by
    rw [Cpu.recibirMensajesDeKernel, hop]
    rfl
  rw [hreceived]
  exact serialUnpackPcb_tags (packet.pointer rc.reply) pcb hinstr htags hnames hfit hreads

/-- Two labels, `f` and `g`, at 1 and 2. -/
def twoLabels : List ProgramTag := [{ name := [102], PC := 1 }, { name := [103], PC := 2 }]

/-- A parser that knows the labels. -/
def labelParser : Parser :=
  { Cpu.callConfig.parser with
    metadataBuscarEtiqueta := fun nombre _ _ => if nombre = [102] then 1 else 2 }

/-- The metadata of a program of three instructions with labels, whose names are one letter
    each. -/
def labelProgram (tabla : List ProgramTag) : MetadataProgram :=
  { instruccionInicio := 0
    instruccionesSize := 3
    instruccionesSerializado := [{ start := 0, offset := 2 }, { start := 2, offset := 2 },
      { start := 4, offset := 2 }]
    etiquetasSize := 6 * tabla.length
    etiquetas := write (fun _ => 0) 0
      (tabla.flatMap fun tag => tag.name ++ 0 :: [tag.PC.toNat.toUInt8, 0, 0, 0])
    cantidadDeFunciones := tabla.length
    cantidadDeEtiquetas := 0 }

set_option maxRecDepth 8000

/-- Of two labels the second is not found. -/
theorem second_label_lost : ∃ k' pcb,
    Kernel.crearPcbProceso labelParser Cpu.callKernel (Kernel.State.init 3 4 [] 0)
      (labelProgram twoLabels) = some (k', pcb) ∧
    ¬ Resuelta Cpu.callConfig twoLabels { payload := fun _ _ => 0, buffer := fun _ => 0, freed := id }
      Cpu.callResidue Cpu.callStart.1 pcb := by
  refine ⟨_, _, rfl, ?_⟩
  rintro ⟨packet, hsend, hfound, _⟩
  obtain rfl := Option.some.inj hsend
  have hsecond := hfound { name := [103], PC := 2 } (by decide)
  exact absurd hsecond (by decide)

/-- Every label of a program is found on the CPU that is sent its control block, and nothing
    else is, exactly when there is one label at most and the control block fits the buffer
    it is sent in. -/
theorem labels_resolve_iff (parser : Parser) (kernelConfig : Kernel.Config) (k k' : Kernel.State)
    (program : MetadataProgram) (pcb : Pcb) (tabla : List ProgramTag) (config : Cpu.Config)
    (r : Kernel.Residue) (rc : Cpu.Residue) (s : Cpu.State) (hlists : Lists parser program tabla)
    (hcrear : Kernel.crearPcbProceso parser kernelConfig k program = some (k', pcb))
    (hpuntero : ∀ x, 0 ≤ x → x < 2 ^ 15 → config.puntero x = x)
    (hnone : ∀ x, 0 ≤ x → x < 2 ^ 15 → config.puntero (-1) ≠ x) :
    Resuelta config tabla r rc s pcb ↔
      tabla.length ≤ 1 ∧
        20 + 4 * program.instruccionesSize.toNat + (tabla.map fun tag => tag.name.length + 4).sum
          ≤ bufferCapacity := by
  rcases crearPcbProceso_tags parser kernelConfig k k' program pcb tabla hlists hcrear with
    ⟨hindex, htags, hinstr⟩
  rw [← crearPcbProceso_bytes parser kernelConfig k k' program pcb tabla hlists hcrear]
  by_cases hfit : pcbBytes pcb ≤ bufferCapacity
  · have hsent : ∃ packet, Kernel.sendPcb r pcb = some packet := by
      simp only [Kernel.sendPcb]
      rw [if_neg (by omega)]
      exact ⟨_, rfl⟩
    rcases hsent with ⟨packet, hsent⟩
    have hnames : ∀ tag ∈ pcb.indexTag,
        (0 : UInt8) ∉ tag.name ∧ tag.name.length ≤ 63 ∧ Short tag.PC := by
      intro tag htag
      rw [hindex] at htag
      have hPC := hlists.PCs tag htag
      exact ⟨(hlists.names tag htag).1, (hlists.names tag htag).2, by omega, hPC.2⟩
    -- What arrives has the same table of labels, so that only the search is left.
    rcases received_tags r rc s pcb packet hsent (by rw [hinstr]; exact hlists.size)
      (by rw [htags, hindex]) hnames hfit with ⟨hindex', htags'⟩
    have hone : Resuelta config tabla r rc s pcb ↔
        Resuelve config tabla (Cpu.recibirMensajesDeKernel rc s packet).pcbActual := by
      simp only [Resuelta, hsent, Option.some.injEq, exists_eq_left']
    rw [hone, resuelve_iff config tabla _ (hindex'.trans hindex) (htags'.trans htags)
      hlists.distinct (fun tag htag => (hlists.names tag htag).1) hlists.PCs hpuntero hnone]
    exact (and_iff_left hfit).symm
  · -- There is nothing to receive.
    refine iff_of_false ?_ (fun h => hfit h.2)
    rintro ⟨packet, hsend, _⟩
    simp only [Kernel.sendPcb] at hsend
    rw [if_pos (by omega)] at hsend
    exact absurd hsend (by simp only [reduceCtorEq, not_false_eq_true])

theorem twoLabels_listed : Lists labelParser (labelProgram twoLabels) twoLabels where
  count := rfl
  size := by decide
  line := by decide
  distinct := by decide
  names := by decide
  PCs := by decide
  block := ⟨fun tag => [tag.PC.toNat.toUInt8, 0, 0, 0], fun _ => rfl, reads_write _ 0 _⟩
  buscar := by decide

/-- The two labels. -/
theorem labels_resolve_two : ∃ k' pcb,
    Kernel.crearPcbProceso labelParser Cpu.callKernel (Kernel.State.init 3 4 [] 0)
      (labelProgram twoLabels) = some (k', pcb) ∧
    (Resuelta Cpu.callConfig twoLabels { payload := fun _ _ => 0, buffer := fun _ => 0, freed := id }
        Cpu.callResidue Cpu.callStart.1 pcb ↔ twoLabels.length ≤ 1 ∧ 42 ≤ bufferCapacity) :=
  ⟨_, _, rfl, labels_resolve_iff labelParser Cpu.callKernel (Kernel.State.init 3 4 [] 0) _
    (labelProgram twoLabels) _ twoLabels Cpu.callConfig _ Cpu.callResidue Cpu.callStart.1
    twoLabels_listed rfl (fun _ _ _ => rfl) (fun _ hx _ => show (-1 : Int) ≠ _ by omega)⟩

end Esther
