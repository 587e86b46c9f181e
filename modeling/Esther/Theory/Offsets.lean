import Esther.Theory.Labels

/-!
# In Step

Whether `serial_unpack_pcb` goes through the labels of a control block as `serial_pack_pcb`
went.

The encoder writes the length of a name, the name, and the instruction it stands for, and
moves on by what it has written. The decoder has room for 64 bytes. It takes a longer name
for one of 63 bytes, but then moves on by the length of what it has kept, and is in the
middle of the name. A name of 64 bytes is not cut, as it is not longer than the room, and its
terminator is written behind the room.

All that follows the first long name is read from elsewhere, so the offsets are the same
exactly if no name is long. As long as none was, the offsets are far below the end of `int`.

## Main definitions

* `Recorrido`: The offsets of the names, of their instructions and of the stack.
* `escrito`, `leido`: Those of the encoder and of the decoder.
* `contados`: How many bytes of a name are kept.
* `Tabulada`: The control blocks in question.
* `EnPaso`: The offsets are the same, and nothing is written behind the room.

## Theorems

* `serialUnpackPcb_leido`: The decoder reads at these offsets.
* `escrito_posiciones`: The offsets of the encoder.
* `tablas_escritas`: What the encoder leaves for the decoder.
* `nombre_iff`: One name.
* `leerEtiquetas_iff`: The loop of the decoder.
* `in_step_iff`: The two are in step exactly if no name has more than 63 bytes.
* `out_of_step`: Names of 64 and of 65 bytes.
-/

namespace Esther

namespace Serial

open Cells

/-- The offsets of each name and of the instruction behind it, and the offset of the stack. -/
structure Recorrido where
  etiquetas : List (Int × Int)
  pila : Int
deriving DecidableEq

/-- The offsets at which the loop of `serial_pack_pcb` writes the tags. -/
def Writer.etiquetas (pcb : Pcb) (w : Writer) : List Nat → List (Int × Int)
  | [] => []
  | i :: is =>
      (w.tam, (w.pack 0 [.s (pcb.indexTag.getD i default).name]).tam)
        :: (w.packTag pcb i).etiquetas pcb is

/-- The offsets at which `serial_pack_pcb` writes. -/
def escrito (pcb : Pcb) (buff : Buf) : Recorrido :=
  { etiquetas := (codeWriter pcb buff).etiquetas pcb (List.range pcb.tags.toNat)
    pila := (tagWriter pcb buff).tam }

/-- The offsets at which the loop of `serial_unpack_pcb` reads the tags. -/
def leerEtiquetas (buf : Buf) : Nat → Int → Recorrido
  | 0, tam => { etiquetas := [], pila := tam }
  | n + 1, tam =>
      let posPC := toInt (tam + ((unpackStr buf tam 64).length + 2))
      let r := leerEtiquetas buf n (toInt (posPC + 2))
      { etiquetas := (tam, posPC) :: r.etiquetas, pila := r.pila }

/-- The offsets at which `serial_unpack_pcb` reads. -/
def leido (buf : Buf) : Recorrido :=
  leerEtiquetas buf (unpacki16 buf 12).toNat
    (unpackCodeLoop buf (unpacki16 buf 10).toNat 18).2

/-- `count` for the letter `s`: the bytes that are kept, and where the terminator goes. -/
def contados (buf : Buf) (pos : Int) (maxstrlen : Nat) : Nat :=
  let len := (unpacku16 buf pos).toNat
  if 0 < maxstrlen ∧ maxstrlen < len then maxstrlen - 1 else len

/-- The integers at the front are in range, the counts are those of the arrays, and the names
    have no zero bytes and a length that fits its field. -/
structure Tabulada (pcb : Pcb) : Prop where
  header : ∀ v ∈ Pcb.header pcb, Short v
  instructions : pcb.instructions = pcb.indexCode.length
  tags : pcb.tags = pcb.indexTag.length
  names : ∀ t ∈ pcb.indexTag, (0 : UInt8) ∉ t.name ∧ t.name.length ≤ 65535

theorem Tabulada.shortInstructions {pcb : Pcb} (h : Tabulada pcb) : Short pcb.instructions :=
  h.header _ (List.getElem_mem (l := Pcb.header pcb) (n := 5) (show 5 < 9 by omega))

theorem Tabulada.shortTags {pcb : Pcb} (h : Tabulada pcb) : Short pcb.tags :=
  h.header _ (List.getElem_mem (l := Pcb.header pcb) (n := 6) (show 6 < 9 by omega))

/-- The bytes of a control block in front of those of the stack. -/
def encTablas (pcb : Pcb) : List UInt8 :=
  (Pcb.header pcb).flatMap encH
    ++ (entries pcb.indexCode pcb.instructions).flatMap encInstruction
    ++ (entries pcb.indexTag pcb.tags).flatMap encTag

/-- The decoder reads where the encoder has written, and each name and its terminator are
    within `tag`. -/
structure EnPaso (pcb : Pcb) (buff buf : Buf) : Prop where
  recorrido : leido buf = escrito pcb buff
  cabe : ∀ etiqueta ∈ (leido buf).etiquetas, contados buf etiqueta.1 64 < 64

/-! ### The offsets -/

theorem unpackTagLoop_leerEtiquetas (buf : Buf) (n : Nat) (tam : Int) :
    unpackTagLoop buf n tam =
      ((leerEtiquetas buf n tam).etiquetas.map fun etiqueta =>
        { name := unpackStr buf etiqueta.1 64, PC := unpacki16 buf etiqueta.2 },
      (leerEtiquetas buf n tam).pila) := by
  induction n generalizing tam with
  | zero => rfl
  | succ n ih =>
      simp only [unpackTagLoop, leerEtiquetas, ih, List.map_cons]

/-- The decoder reads the names, their instructions and the stack at its offsets. -/
theorem serialUnpackPcb_leido (buf : Buf) :
    (serialUnpackPcb buf).indexTag = (leido buf).etiquetas.map (fun etiqueta =>
        { name := unpackStr buf etiqueta.1 64, PC := unpacki16 buf etiqueta.2 }) ∧
      (serialUnpackPcb buf).stack = serialUnpackStack buf (leido buf).pila := by
  simp only [serialUnpackPcb, unpackTagLoop_leerEtiquetas, leido, and_self]

/-- The offsets of labels that are packed one behind the other. -/
def posiciones : Int → List ProgramTag → Recorrido
  | tam, [] => { etiquetas := [], pila := tam }
  | tam, t :: ts =>
      let posPC := toInt (tam + (t.name.length + 2))
      let r := posiciones (toInt (posPC + 2)) ts
      { etiquetas := (tam, posPC) :: r.etiquetas, pila := r.pila }

/-- The loop of the encoder goes through these. -/
theorem escritas_posiciones (pcb : Pcb) (w : Writer) (is : List Nat)
    (hnames : ∀ i ∈ is, (0 : UInt8) ∉ (pcb.indexTag.getD i default).name) :
    Recorrido.mk (w.etiquetas pcb is) (is.foldl (fun w i => w.packTag pcb i) w).tam =
      posiciones w.tam (is.map fun i => pcb.indexTag.getD i default) := by
  induction is generalizing w with
  | nil => rfl
  | cons i is ih =>
      have hname := (emits_s 0 w (pcb.indexTag.getD i default).name).1
      rw [encArg, cstr_of_notMem _ (hnames i List.mem_cons_self), List.length_append, encH_length]
        at hname
      have hposPC : (w.pack 0 [.s (pcb.indexTag.getD i default).name]).tam =
          toInt (w.tam + ((pcb.indexTag.getD i default).name.length + 2)) := by
        rw [hname]
        congr 1
        omega
      have hnext : (w.packTag pcb i).tam =
          toInt (toInt (w.tam + ((pcb.indexTag.getD i default).name.length + 2)) + 2) := by
        rw [← hposPC]
        exact (emits_h 0 (w.pack 0 [.s (pcb.indexTag.getD i default).name])
          (pcb.indexTag.getD i default).PC).1
      have hrest := ih (w.packTag pcb i) fun j hj => hnames j (List.mem_cons_of_mem _ hj)
      rw [hnext] at hrest
      rw [List.map_cons, posiciones, ← hrest, Writer.etiquetas, hposPC, List.foldl_cons]

/-- The offset behind the code index. -/
theorem codeWriter_tam (pcb : Pcb) (buff : Buf) (h : pcb.instructions < 2 ^ 15) :
    (codeWriter pcb buff).tam = 18 + 4 * pcb.instructions.toNat := by
  have htam := (codeWriter_emits pcb buff).1
  rw [List.length_append, encHeader_length, encInstructions_length, entries_length, Int.zero_add]
    at htam
  rw [htam, toInt_of_lt _ (by omega) (by omega)]
  push_cast
  omega

/-- The offsets of the encoder. -/
theorem escrito_posiciones (pcb : Pcb) (buff : Buf) (h : Tabulada pcb) :
    escrito pcb buff = posiciones (18 + 4 * pcb.instructions.toNat) pcb.indexTag := by
  have hentries : (List.range pcb.tags.toNat).map (fun i => pcb.indexTag.getD i default) =
      pcb.indexTag := entries_of_length _ _ h.tags
  have hzero : ∀ i ∈ List.range pcb.tags.toNat,
      (0 : UInt8) ∉ (pcb.indexTag.getD i default).name := by
    intro i hi
    have hmem := List.mem_map_of_mem (f := fun i => pcb.indexTag.getD i default) hi
    rw [hentries] at hmem
    exact (h.names _ hmem).1
  have hloop := escritas_posiciones pcb (codeWriter pcb buff) (List.range pcb.tags.toNat) hzero
  rw [hentries, codeWriter_tam pcb buff h.shortInstructions.2] at hloop
  exact hloop

/-- The encoder leaves the tables in the buffer, as long as its offset fits. -/
theorem tablas_escritas (pcb : Pcb) (buff : Buf) (h : (encPcb pcb).length < 2 ^ 31) :
    Reads (serialPackPcb pcb buff).1 0 (encTablas pcb) := by
  have hall : Reads (serialPackPcb pcb buff).1 0 (encTablas pcb ++ encStack pcb.stack) := by
    rw [serialPackPcb_buf pcb buff h]
    exact reads_write buff 0 (encPcb pcb)
  exact ((reads_append _ _ _ _).mp hall).1

/-! ### Names -/

/-- What is kept of a name. -/
theorem contados_of_reads (buf : Buf) (pos : Int) (nombre : List UInt8)
    (hzero : (0 : UInt8) ∉ nombre) (hlength : nombre.length ≤ 65535)
    (h : Reads buf pos (encArg (.s nombre))) :
    contados buf pos 64 = (if 64 < nombre.length then 63 else nombre.length) ∧
      (unpackStr buf pos 64).length = contados buf pos 64 := by
  rw [encArg, cstr_of_notMem nombre hzero, reads_append, encH_length] at h
  have hlen : (unpacku16 buf pos).toNat = nombre.length := by
    rw [unpacku16_of_reads buf pos _ h.1]
    omega
  have hcount : contados buf pos 64 = (if 64 < nombre.length then 63 else nombre.length) := by
    rw [contados, hlen]
    split
    · rw [if_pos (by omega)]
    · rw [if_neg (by omega)]
  have hle : contados buf pos 64 ≤ nombre.length := by
    rw [hcount]
    split
    · omega
    · exact le_refl _
  -- The bytes that are kept are the first ones of the name.
  have hkept : slice buf (pos + 2) (contados buf pos 64)
      = nombre.take (contados buf pos 64) := by
    have hbody := h.2
    rw [← List.take_append_drop (contados buf pos 64) nombre, reads_append] at hbody
    have hfront := hbody.1
    rw [Reads, List.length_take, Nat.min_eq_left hle] at hfront
    exact hfront
  refine ⟨hcount, ?_⟩
  have hstr : unpackStr buf pos 64 = cstr (slice buf (pos + 2) (contados buf pos 64)) := rfl
  rw [hstr, hkept, cstr_of_notMem _ fun hmem => hzero (List.mem_of_mem_take hmem),
    List.length_take, Nat.min_eq_left hle]

/-- The decoder moves on as the encoder and stays within `tag` exactly if the name has at most
    63 bytes. -/
theorem nombre_iff (buf : Buf) (tam : Int) (nombre : List UInt8) (hzero : (0 : UInt8) ∉ nombre)
    (hlength : nombre.length ≤ 65535) (h : Reads buf tam (encArg (.s nombre))) :
    toInt (tam + ((unpackStr buf tam 64).length + 2)) = toInt (tam + (nombre.length + 2)) ∧
        contados buf tam 64 < 64
      ↔ nombre.length ≤ 63 := by
  rcases contados_of_reads buf tam nombre hzero hlength h with ⟨hcount, hkept⟩
  rw [hkept, hcount]
  by_cases hlong : 64 < nombre.length
  · rw [if_pos hlong]
    refine iff_of_false (fun hstep => ?_) (by omega)
    -- The two offsets are less than a turn of an `int` apart.
    have hsame := hstep.1
    simp only [toInt, Int.bmod_def] at hsame
    omega
  · rw [if_neg hlong]
    constructor
    · rintro ⟨_, hroom⟩
      omega
    · intro hshort
      exact ⟨rfl, by omega⟩

/-- The loop of the decoder goes through the offsets of the encoder and stays within `tag`
    exactly if all the names have at most 63 bytes. -/
theorem leerEtiquetas_iff (buf : Buf) (ts : List ProgramTag) (tam : Int) (hlo : 0 ≤ tam)
    (hfit : tam + 67 * ts.length < 2 ^ 31)
    (hnames : ∀ t ∈ ts, (0 : UInt8) ∉ t.name ∧ t.name.length ≤ 65535)
    (h : Reads buf tam (ts.flatMap encTag)) :
    leerEtiquetas buf ts.length tam = posiciones tam ts ∧
        (∀ etiqueta ∈ (leerEtiquetas buf ts.length tam).etiquetas, contados buf etiqueta.1 64 < 64)
      ↔ ∀ t ∈ ts, t.name.length ≤ 63 := by
  induction ts generalizing tam with
  | nil =>
      exact iff_of_true ⟨rfl, fun _ hmem => absurd hmem List.not_mem_nil⟩
        fun _ hmem => absurd hmem List.not_mem_nil
  | cons t ts ih =>
      rcases hnames t List.mem_cons_self with ⟨hzero, hlength⟩
      rw [List.flatMap_cons, reads_append, encTag_length t hzero] at h
      rcases h with ⟨hhere, hafter⟩
      rw [encTag, reads_append] at hhere
      have hnombre := nombre_iff buf tam t.name hzero hlength hhere.1
      rw [List.length_cons, Nat.cast_add, Nat.cast_one] at hfit
      simp only [List.length_cons, leerEtiquetas, posiciones, List.forall_mem_cons,
        Recorrido.mk.injEq, List.cons.injEq, Prod.mk.injEq, true_and]
      by_cases hshort : t.name.length ≤ 63
      · -- With a short name both are at the next label, and there is room for more.
        rcases hnombre.mpr hshort with ⟨hsame, hroom⟩
        rcases toInt_etiqueta tam t.name.length hlo (by omega) with ⟨hposPC, hnext⟩
        have hrest := ih (tam + (t.name.length + 4)) (by omega) (by omega)
          (fun u hu => hnames u (List.mem_cons_of_mem t hu)) (by
            rw [show tam + ((t.name.length : Int) + 4) = tam + ((t.name.length + 4 : Nat) : Int)
              by omega]
            exact hafter)
        rw [hsame, hposPC, hnext, ← hrest]
        simp only [true_and, hroom, hshort]
        constructor
        · rintro ⟨⟨hlabels, hstack⟩, hkept⟩
          exact ⟨congrArg₂ Recorrido.mk hlabels hstack, hkept⟩
        · rintro ⟨hequal, hkept⟩
          exact ⟨⟨congrArg Recorrido.etiquetas hequal, congrArg Recorrido.pila hequal⟩, hkept⟩
      · refine iff_of_false (fun hstep => ?_) fun hall => hshort hall.1
        exact hshort (hnombre.mp ⟨hstep.1.1.1, hstep.2.1⟩)

/-! ### Control blocks -/

/-- The decoder begins with the labels where the encoder has, and reads as many. -/
theorem leido_of_reads (pcb : Pcb) (buf : Buf) (hpcb : Tabulada pcb)
    (h : Reads buf 0 ((Pcb.header pcb).flatMap encH)) :
    leido buf = leerEtiquetas buf pcb.indexTag.length (18 + 4 * pcb.instructions.toNat) := by
  have hfield := unpackHeader_of_reads buf pcb hpcb.header h
  have hinstr : unpacki16 buf 10 = pcb.instructions := hfield 5 (show 5 < 9 by omega)
  have htags : unpacki16 buf 12 = pcb.tags := hfield 6 (show 6 < 9 by omega)
  have hlt := hpcb.shortInstructions.2
  have hoffset := unpackCodeLoop_offset buf pcb.instructions.toNat 18 (by omega) (by omega)
  rw [leido, hinstr, htags, hoffset, hpcb.tags, Int.toNat_natCast]

/-- The decoder reads each name, each instruction of a name and the stack where the encoder has
    written them, and nothing behind `tag` is written, exactly if no name has more than 63
    bytes. -/
theorem in_step_iff (pcb : Pcb) (buff buf : Buf) (hpcb : Tabulada pcb)
    (hbuf : Reads buf 0 (encTablas pcb)) :
    EnPaso pcb buff buf ↔ ∀ t ∈ pcb.indexTag, t.name.length ≤ 63 := by
  rw [encTablas, entries_of_length _ _ hpcb.tags, reads_append, reads_append] at hbuf
  rcases hbuf with ⟨⟨hheader, _⟩, htable⟩
  rw [List.length_append, encHeader_length, encInstructions_length, entries_length, Int.zero_add,
    Int.natCast_add, Int.natCast_mul] at htable
  -- Neither count leaves its field, which bounds the offsets.
  have hfit : 18 + 4 * (pcb.instructions.toNat : Int) + 67 * pcb.indexTag.length < 2 ^ 31 := by
    have hmany := hpcb.shortTags.2
    have hlong := hpcb.shortInstructions.2
    rw [hpcb.tags] at hmany
    omega
  have hloop := leerEtiquetas_iff buf pcb.indexTag _ (by omega) hfit hpcb.names htable
  rw [← hloop, ← leido_of_reads pcb buf hpcb hheader, ← escrito_posiciones pcb buff hpcb]
  exact ⟨fun h => ⟨h.recorrido, h.cabe⟩, fun h => ⟨h.1, h.2⟩⟩

/-- A control block with one label, whose name has `n` bytes. -/
def labelPcb (n : Nat) : Pcb :=
  { idProcess := 1, PC := 0, quantum := 0, status := 0, pagesCode := 1, indexCode := [],
    instructions := 0, indexTag := [{ name := List.replicate n 97, PC := 1 }], tags := 1,
    stack := [], stackPointer := 0, exitCode := 0 }

theorem labelPcb_tabulada (n : Nat) (h : n ≤ 65535) : Tabulada (labelPcb n) := by
  refine ⟨fun v hv => ?_, rfl, rfl, fun t ht => ?_⟩
  · have hall : Pcb.header (labelPcb n) = [1, 0, 0, 0, 1, 0, 1, 0, 0] := rfl
    rw [hall] at hv
    simp only [List.mem_cons, List.not_mem_nil, or_false] at hv
    simp only [Short]
    omega
  · rw [List.mem_singleton.mp ht]
    refine ⟨fun hzero => absurd (List.eq_of_mem_replicate hzero) (by decide), ?_⟩
    rw [List.length_replicate]
    exact h

/-- What the encoder leaves of a label. -/
def labelBuf (n : Nat) : Buf := (serialPackPcb (labelPcb n) fun _ => 0).1

/-- A name of 63 bytes. -/
theorem in_step_short : EnPaso (labelPcb 63) (fun _ => 0) (labelBuf 63) :=
  (in_step_iff (labelPcb 63) (fun _ => 0) (labelBuf 63) (labelPcb_tabulada 63 (by omega))
    (tablas_escritas (labelPcb 63) _ (by decide +kernel))).mpr fun t ht => by
      rw [List.mem_singleton.mp ht, List.length_replicate]

/-- With 64 bytes the terminator is written behind `tag`, and with 65 the decoder looks for the
    instruction two bytes too early. -/
theorem out_of_step :
    ¬ EnPaso (labelPcb 64) (fun _ => 0) (labelBuf 64) ∧
      ¬ EnPaso (labelPcb 65) (fun _ => 0) (labelBuf 65) := by
  constructor
  · intro h
    have hread : (18, 84) ∈ (leido (labelBuf 64)).etiquetas := by decide +kernel
    have hkept : contados (labelBuf 64) 18 64 = 64 := by decide +kernel
    have hroom := h.cabe _ hread
    rw [hkept] at hroom
    exact Nat.lt_irrefl 64 hroom
  · intro h
    have hread : (leido (labelBuf 65)).etiquetas = [(18, 83)] := by decide +kernel
    have hwritten : (escrito (labelPcb 65) fun _ => 0).etiquetas = [(18, 85)] := by
      decide +kernel
    have hsame := congrArg Recorrido.etiquetas h.recorrido
    rw [hread, hwritten] at hsame
    exact absurd hsame (by decide)

end Serial

end Esther
