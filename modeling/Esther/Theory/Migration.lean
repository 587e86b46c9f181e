import Esther.Theory.Encoding

/-!
# Migration of a Control Block

Decoding gives back what was encoded, so a process can be handed from the
kernel to a CPU and back without losing anything.

The decoders are followed along `Reads`: a decoder that starts where a list of
bytes is stored returns the record those bytes encode, and the offset it leaves
is the one it started at plus the length of the list. The offset is again an
`int` that is converted after every addition, and the decoders use it to find
the next field, so the hypothesis that everything fits in an `int` is carried
from the control block down to every loop.

That hypothesis is not implied by the 16-bit counts: a stack of 32767 contexts
of 32767 variables is seven gigabytes long. `hugePcb` is such a block, built so
that its length is exactly `2^32`: the encoder reports zero bytes for it.

## Main definitions

* `Migratable`: The control blocks the wire format can carry.
* `Lossless`: Decoding returns the block, the reported size is the number of
  bytes stored, and what lies after them is not looked at.
* `towerPcb`: A block of given dimensions.
* `hugePcb`: A block of in-range fields whose encoding does not fit an `int`.

## Theorems

* `serialUnpackVars_of_reads`, `serialUnpackStack_of_reads`,
  `serialUnpackPcb_of_reads`: The decoders, along the bytes they read.
* `serialPackPcb_lossless`: Migration is lossless while the size fits an `int`.
* `hugePcb_not_lossless`: It is not when the size does not.
-/

namespace Esther

namespace Serial

open Cells

/-- The positions the wire format can carry. -/
structure MigratablePos (m : Mempos) : Prop where
  page : Short m.page
  offset : Short m.offset
  size : Short m.size

/-- The variables it can carry; `id` is a `char`. -/
structure MigratableVar (v : Var) : Prop where
  idLo : -2 ^ 7 ≤ v.id
  idHi : v.id < 2 ^ 7
  mempos : MigratablePos v.mempos

/-- The stack contexts it can carry. -/
structure MigratableContext (c : Stack) : Prop where
  retPos : Short c.retPos
  retVar : MigratablePos c.retVar
  argsCount : c.args.length < 2 ^ 15
  varsCount : c.vars.length < 2 ^ 15
  args : ∀ v ∈ c.args, MigratableVar v
  vars : ∀ v ∈ c.vars, MigratableVar v

/-- The control blocks it can carry: in-range fields, counts that match their
    arrays, and short names without zero bytes. -/
structure Migratable (pcb : Pcb) : Prop where
  header : ∀ v ∈ Pcb.header pcb, Short v
  instructions : pcb.instructions = pcb.indexCode.length
  tags : pcb.tags = pcb.indexTag.length
  depth : pcb.stack.length < 2 ^ 15
  code : ∀ i ∈ pcb.indexCode, Short i.start ∧ Short i.offset
  names : ∀ t ∈ pcb.indexTag, (0 : UInt8) ∉ t.name ∧ t.name.length ≤ 63 ∧ Short t.PC
  stack : ∀ c ∈ pcb.stack, MigratableContext c

theorem encInstruction_length (i : Instruction) : (encInstruction i).length = 4 := rfl

theorem encTag_length (t : ProgramTag) (h : (0 : UInt8) ∉ t.name) :
    (encTag t).length = t.name.length + 4 := by
  simp only [encTag, encArg, cstr_of_notMem t.name h, List.length_append, encH_length]
  omega

/-- A field in range comes out as itself. -/
theorem unpacki16_of_short (buf : Buf) (pos v : Int) (hv : Short v) (h : Reads buf pos (encH v)) :
    unpacki16 buf pos = v := by
  rw [unpacki16_of_reads buf pos v h, toShort_of_short v hv]

/-- Three consecutive fields, the shape of a memory position. -/
theorem unpackPos_of_reads (buf : Buf) (pos : Int) (m : Mempos) (hm : MigratablePos m)
    (h : Reads buf pos (encArgs [.h m.page, .h m.offset, .h m.size])) :
    unpacki16 buf pos = m.page ∧ unpacki16 buf (pos + 2) = m.offset
      ∧ unpacki16 buf (pos + 4) = m.size := by
  have hsplit : encArgs [.h m.page, .h m.offset, .h m.size]
      = encH m.page ++ (encH m.offset ++ encH m.size) := rfl
  rw [hsplit, reads_append, reads_append, encH_length, encH_length] at h
  rcases h with ⟨hpage, hoffset, hsize⟩
  rw [show pos + ((2 : Nat) : Int) + ((2 : Nat) : Int) = pos + 4 by omega] at hsize
  exact ⟨unpacki16_of_short _ _ _ hm.page hpage, unpacki16_of_short _ _ _ hm.offset hoffset,
    unpacki16_of_short _ _ _ hm.size hsize⟩

/-- One round of the loop over the variables reads the variable. -/
theorem unpackVar_of_reads (buf : Buf) (pos : Int) (v : Var) (hv : MigratableVar v)
    (h : Reads buf pos (encVar v)) :
    Var.mk (unpackChar buf pos)
      { page := unpacki16 buf (pos + 1), offset := unpacki16 buf (pos + 3),
        size := unpacki16 buf (pos + 5) } = v := by
  have hsplit : encVar v = [byte v.id]
      ++ encArgs [.h v.mempos.page, .h v.mempos.offset, .h v.mempos.size] := rfl
  rw [hsplit, reads_append] at h
  have hid := unpackChar_of_reads buf pos v.id hv.idLo hv.idHi h.1
  rcases unpackPos_of_reads buf (pos + 1) v.mempos hv.mempos h.2 with ⟨hpage, hoffset, hsize⟩
  rw [show pos + 1 + 2 = pos + 3 by omega] at hoffset
  rw [show pos + 1 + 4 = pos + 5 by omega] at hsize
  rw [hid, hpage, hoffset, hsize]

/-- The loop over the variables, and where it leaves its offset. -/
theorem unpackVarsLoop_of_reads (buf : Buf) (buff : Int) (vs : List Var) (tam : Int)
    (hlo : 0 ≤ tam) (hfit : tam + 7 * vs.length < 2 ^ 31) (hv : ∀ v ∈ vs, MigratableVar v)
    (h : Reads buf (buff + tam) (vs.flatMap encVar)) :
    unpackVarsLoop buf buff vs.length tam = (vs, tam + 7 * vs.length) := by
  induction vs generalizing tam with
  | nil => simp only [List.length_nil, unpackVarsLoop, Int.natCast_zero, Int.mul_zero, Int.add_zero]
  | cons v vs ih =>
      rw [List.length_cons, Int.natCast_add, Int.natCast_one] at hfit
      rw [List.flatMap_cons, reads_append, encVar_length] at h
      have htam : toInt (tam + 7) = tam + 7 := toInt_of_lt _ (by omega) (by omega)
      have hfirst := unpackVar_of_reads buf (buff + tam) v (hv v (List.mem_cons_self)) h.1
      have hrest := ih (tam + 7) (by omega) (by omega)
        (fun u hu => hv u (List.mem_cons_of_mem v hu))
        (by rw [show buff + (tam + 7) = buff + tam + ((7 : Nat) : Int) by omega]; exact h.2)
      simp only [List.length_cons, unpackVarsLoop, htam, hrest, hfirst, Prod.mk.injEq, true_and,
        Int.natCast_add, Int.natCast_one]
      omega

/-- Decoding a list of variables gives the list, and the number of bytes it
    took. The count alone keeps the offset inside an `int` here. -/
theorem serialUnpackVars_of_reads (buf : Buf) (buff : Int) (vs : List Var)
    (hlen : vs.length < 2 ^ 15) (hv : ∀ v ∈ vs, MigratableVar v)
    (h : Reads buf buff (encVars vs)) :
    serialUnpackVars buf buff = (vs, (encVars vs).length) := by
  rw [encVars_length]
  rw [encVars, reads_append, encH_length] at h
  have hcount : (unpacki16 buf buff).toNat = vs.length := by
    rw [unpacki16_of_short _ _ _ (short_of_length _ hlen) h.1, Int.toNat_natCast]
  have hloop := unpackVarsLoop_of_reads buf buff vs 2 (by omega) (by omega) hv h.2
  simp only [serialUnpackVars, hcount, hloop, toSizeT, Prod.mk.injEq, true_and]
  omega

/-- The loop over the stack contexts. -/
theorem unpackStackLoop_of_reads (buf : Buf) (buff : Int) (st : List Stack) (tam : Int)
    (hlo : 0 ≤ tam) (hfit : tam + (st.flatMap encContext).length < 2 ^ 31)
    (hst : ∀ c ∈ st, MigratableContext c)
    (h : Reads buf (buff + tam) (st.flatMap encContext)) :
    unpackStackLoop buf buff st.length tam = st := by
  induction st generalizing tam with
  | nil => rfl
  | cons c st ih =>
      have hc := hst c (List.mem_cons_self)
      rw [List.flatMap_cons] at h hfit
      rw [List.length_append, Int.natCast_add, encContext_length] at hfit
      rw [reads_append, encContext_length] at h
      rcases h with ⟨hhere, hafter⟩
      rw [encContext, reads_append, reads_append, reads_append] at hhere
      rcases hhere with ⟨⟨⟨hret, hargs⟩, hvars⟩, hretVar⟩
      simp only [List.length_append, encH_length, encVars_length, Int.natCast_add, Int.natCast_mul]
        at hargs hvars hretVar hafter
      -- The offsets the decoder goes through are the lengths of what it has read.
      have htam₁ : toInt (tam + 2) = tam + 2 := toInt_of_lt _ (by omega) (by omega)
      have htam₂ : toInt (tam + 2 + ((encVars c.args).length : Int))
          = tam + 2 + (encVars c.args).length := by
        rw [encVars_length]
        exact toInt_of_lt _ (by omega) (by omega)
      have htam₃ : toInt (tam + 2 + ((encVars c.args).length : Int) + ((encVars c.vars).length : Int))
          = tam + 2 + (encVars c.args).length + (encVars c.vars).length := by
        rw [encVars_length, encVars_length]
        exact toInt_of_lt _ (by omega) (by omega)
      have htam₄ : toInt (tam + 2 + ((encVars c.args).length : Int)
            + ((encVars c.vars).length : Int) + 6)
          = tam + (12 + 7 * c.args.length + 7 * c.vars.length) := by
        rw [encVars_length, encVars_length, toInt_of_lt _ (by omega) (by omega)]
        omega
      have hretPos := unpacki16_of_short _ _ _ hc.retPos hret
      have hunArgs := serialUnpackVars_of_reads buf (buff + (tam + 2)) c.args hc.argsCount hc.args
        (by rw [show buff + (tam + 2) = buff + tam + ((2 : Nat) : Int) by omega]; exact hargs)
      have hunVars := serialUnpackVars_of_reads buf
        (buff + (tam + 2 + ((encVars c.args).length : Int))) c.vars hc.varsCount hc.vars (by
          rw [encVars_length, show buff + (tam + 2 + ((2 + 7 * c.args.length : Nat) : Int))
            = buff + tam + (((2 : Nat) : Int) + (((2 : Nat) : Int)
              + ((7 : Nat) : Int) * (c.args.length : Int))) by omega]
          exact hvars)
      have hunRet := unpackPos_of_reads buf
        (buff + (tam + 2 + ((encVars c.args).length : Int) + ((encVars c.vars).length : Int)))
        c.retVar hc.retVar (by
          rw [encVars_length, encVars_length,
            show buff + (tam + 2 + ((2 + 7 * c.args.length : Nat) : Int)
                + ((2 + 7 * c.vars.length : Nat) : Int))
              = buff + tam + (((2 : Nat) : Int) + (((2 : Nat) : Int)
                  + ((7 : Nat) : Int) * (c.args.length : Int))
                + (((2 : Nat) : Int) + ((7 : Nat) : Int) * (c.vars.length : Int))) by omega]
          exact hretVar)
      have hrest := ih (tam + (12 + 7 * c.args.length + 7 * c.vars.length)) (by omega) (by omega)
        (fun d hd => hst d (List.mem_cons_of_mem c hd))
        (by
          rw [show buff + (tam + (12 + 7 * (c.args.length : Int) + 7 * (c.vars.length : Int)))
            = buff + tam + (((12 : Nat) : Int) + ((7 : Nat) : Int) * (c.args.length : Int)
              + ((7 : Nat) : Int) * (c.vars.length : Int)) by omega]
          exact hafter)
      simp only [List.length_cons, unpackStackLoop, htam₁, hunArgs, htam₂, hunVars, htam₃, hretPos,
        hunRet.1, hunRet.2.1, hunRet.2.2, htam₄, hrest]

/-- Decoding the stack index gives the stack index. -/
theorem serialUnpackStack_of_reads (buf : Buf) (buff : Int) (st : List Stack)
    (hlen : st.length < 2 ^ 15) (hfit : (encStack st).length < 2 ^ 31)
    (hst : ∀ c ∈ st, MigratableContext c) (h : Reads buf buff (encStack st)) :
    serialUnpackStack buf buff = st := by
  rw [encStack, List.length_append, encH_length] at hfit
  rw [encStack, reads_append, encH_length] at h
  have hcount : (unpacki16 buf buff).toNat = st.length := by
    rw [unpacki16_of_short _ _ _ (short_of_length _ hlen) h.1, Int.toNat_natCast]
  rw [serialUnpackStack, hcount]
  exact unpackStackLoop_of_reads buf buff st 2 (by omega) (by omega) hst h.2

/-- The loop over the code index, and where it leaves its offset. -/
theorem unpackCodeLoop_of_reads (buf : Buf) (is : List Instruction) (tam : Int)
    (hlo : 0 ≤ tam) (hfit : tam + (is.flatMap encInstruction).length < 2 ^ 31)
    (his : ∀ i ∈ is, Short i.start ∧ Short i.offset)
    (h : Reads buf tam (is.flatMap encInstruction)) :
    unpackCodeLoop buf is.length tam = (is, tam + (is.flatMap encInstruction).length) := by
  induction is generalizing tam with
  | nil => simp only [List.length_nil, unpackCodeLoop, List.flatMap_nil, Int.natCast_zero,
      Int.add_zero]
  | cons i is ih =>
      have hi := his i (List.mem_cons_self)
      rw [List.flatMap_cons] at h hfit
      rw [List.length_append, Int.natCast_add, encInstruction_length] at hfit
      rw [reads_append, encInstruction_length] at h
      rcases h with ⟨hhere, hafter⟩
      rw [encInstruction, reads_append, encH_length] at hhere
      have htam₁ : toInt (tam + 2) = tam + 2 := toInt_of_lt _ (by omega) (by omega)
      have htam₂ : toInt (tam + 2 + 2) = tam + 4 := by
        rw [toInt_of_lt _ (by omega) (by omega)]
        omega
      have hstart := unpacki16_of_short _ _ _ hi.1 hhere.1
      have hoffset : unpacki16 buf (tam + 2) = i.offset :=
        unpacki16_of_short _ _ _ hi.2 hhere.2
      have hrest := ih (tam + 4) (by omega) (by omega)
        (fun j hj => his j (List.mem_cons_of_mem i hj)) hafter
      simp only [List.length_cons, unpackCodeLoop, htam₁, htam₂, hstart, hoffset, hrest,
        List.flatMap_cons, List.length_append, encInstruction_length, Prod.mk.injEq, true_and,
        Int.natCast_add]
      omega

/-- The offsets behind a name of `n` bytes and behind its instruction, as long as they fit. -/
theorem toInt_etiqueta (tam : Int) (n : Nat) (hlo : 0 ≤ tam) (hfit : tam + (n + 4) < 2 ^ 31) :
    toInt (tam + (n + 2)) = tam + (n + 2) ∧ toInt (tam + (n + 2) + 2) = tam + (n + 4) := by
  refine ⟨toInt_of_lt _ (by omega) (by omega), ?_⟩
  rw [toInt_of_lt _ (by omega) (by omega)]
  omega

/-- The loop over the tags, and where it leaves its offset. The length of the
    string that was read is the length that was stored, because the name has no
    zero byte and fits. -/
theorem unpackTagLoop_of_reads (buf : Buf) (ts : List ProgramTag) (tam : Int)
    (hlo : 0 ≤ tam) (hfit : tam + (ts.flatMap encTag).length < 2 ^ 31)
    (hts : ∀ t ∈ ts, (0 : UInt8) ∉ t.name ∧ t.name.length ≤ 63 ∧ Short t.PC)
    (h : Reads buf tam (ts.flatMap encTag)) :
    unpackTagLoop buf ts.length tam = (ts, tam + (ts.flatMap encTag).length) := by
  induction ts generalizing tam with
  | nil => simp only [List.length_nil, unpackTagLoop, List.flatMap_nil, Int.natCast_zero,
      Int.add_zero]
  | cons t ts ih =>
      rcases hts t (List.mem_cons_self) with ⟨hzero, hshort, hPC⟩
      have hlen := encTag_length t hzero
      rw [List.flatMap_cons] at h hfit
      rw [List.length_append, Int.natCast_add, hlen] at hfit
      rw [reads_append, hlen] at h
      rcases h with ⟨hhere, hafter⟩
      rw [encTag, reads_append] at hhere
      -- A name is sent with its length before it and takes two bytes more.
      have hname : ((encArg (.s t.name)).length : Int) = t.name.length + 2 := by
        simp only [encArg, cstr_of_notMem t.name hzero, List.length_append, encH_length]
        omega
      rw [hname] at hhere
      -- The position is an `int`, which `hfit` keeps from overflowing.
      rcases toInt_etiqueta tam t.name.length hlo (by omega) with ⟨htam₁, htam₂⟩
      have hstr := unpackStr_of_reads buf tam t.name hzero hshort hhere.1
      have hpc := unpacki16_of_short _ _ _ hPC hhere.2
      have hrest := ih (tam + (t.name.length + 4)) (by omega) (by omega)
        (fun u hu => hts u (List.mem_cons_of_mem t hu))
        (by rw [show tam + ((t.name.length : Int) + 4) = tam + ((t.name.length + 4 : Nat) : Int)
            by omega]; exact hafter)
      simp only [List.length_cons, unpackTagLoop, hstr, htam₁, htam₂, hpc, hrest,
        List.flatMap_cons, List.length_append, hlen, Prod.mk.injEq, true_and, Int.natCast_add]
      omega

/-- The integers at the front of a block come out as themselves, each at twice its index. -/
theorem unpackHeader_of_reads (buf : Buf) (pcb : Pcb) (hshort : ∀ v ∈ Pcb.header pcb, Short v)
    (h : Reads buf 0 ((Pcb.header pcb).flatMap encH)) (k : Nat) (hk : k < (Pcb.header pcb).length) :
    unpacki16 buf (0 + 2 * k) = (Pcb.header pcb)[k] := by
  rw [unpackFields_of_reads buf (Pcb.header pcb) 0 h k hk,
    toShort_of_short _ (hshort _ (List.getElem_mem hk))]

/-- Decoding a control block along the bytes of `encPcb` gives the control
    block. Only the bytes are looked at, so what follows them is irrelevant. -/
theorem serialUnpackPcb_of_reads (buf : Buf) (pcb : Pcb) (hp : Migratable pcb)
    (hfit : (encPcb pcb).length < 2 ^ 31) (h : Reads buf 0 (encPcb pcb)) :
    serialUnpackPcb buf = pcb := by
  rw [encPcb, entries_of_length _ _ hp.instructions, entries_of_length _ _ hp.tags] at h hfit
  simp only [List.length_append] at hfit
  have hhead : ((Pcb.header pcb).flatMap encH).length = 18 := rfl
  rw [reads_append, reads_append, reads_append] at h
  rcases h with ⟨⟨⟨hheader, hcode⟩, htags⟩, hstack⟩
  simp only [List.length_append, hhead, Int.natCast_add, Int.zero_add] at hcode htags hstack
  have hnine : (Pcb.header pcb).length = 9 := rfl
  have hfield := unpackHeader_of_reads buf pcb hp.header hheader
  have hid : unpacki16 buf 0 = pcb.idProcess := hfield 0 (by omega)
  have hPC : unpacki16 buf 2 = pcb.PC := hfield 1 (by omega)
  have hquantum : unpacki16 buf 4 = pcb.quantum := hfield 2 (by omega)
  have hstatus : unpacki16 buf 6 = pcb.status := hfield 3 (by omega)
  have hpages : unpacki16 buf 8 = pcb.pagesCode := hfield 4 (by omega)
  have hinstr : unpacki16 buf 10 = pcb.instructions := hfield 5 (by omega)
  have hntags : unpacki16 buf 12 = pcb.tags := hfield 6 (by omega)
  have hsp : unpacki16 buf 14 = pcb.stackPointer := hfield 7 (by omega)
  have hexit : unpacki16 buf 16 = pcb.exitCode := hfield 8 (by omega)
  have hninstr : pcb.instructions.toNat = pcb.indexCode.length := by
    rw [hp.instructions, Int.toNat_natCast]
  have hnt : pcb.tags.toNat = pcb.indexTag.length := by
    rw [hp.tags, Int.toNat_natCast]
  -- The three tables, each beginning where the one before it ends.
  have hcodeLoop := unpackCodeLoop_of_reads buf pcb.indexCode 18 (by omega) (by omega) hp.code hcode
  have htagLoop := unpackTagLoop_of_reads buf pcb.indexTag
    (18 + (pcb.indexCode.flatMap encInstruction).length) (by omega) (by omega) hp.names htags
  have hstackDec := serialUnpackStack_of_reads buf
    (18 + (pcb.indexCode.flatMap encInstruction).length + (pcb.indexTag.flatMap encTag).length)
    pcb.stack hp.depth (by omega) hp.stack hstack
  simp only [serialUnpackPcb, hid, hPC, hquantum, hstatus, hpages, hinstr, hntags, hsp, hexit,
    hninstr, hnt, hcodeLoop, htagLoop, hstackDec]

/-- Migration of a control block through a buffer: the buffer holds as many
    bytes as `serial_pack_pcb` reports and is otherwise what it was, and every
    buffer that agrees with it on those bytes is decoded to the same block. -/
def Lossless (pcb : Pcb) (buff : Buf) : Prop :=
  (∃ bytes : List UInt8, (serialPackPcb pcb buff).1 = write buff 0 bytes
      ∧ (serialPackPcb pcb buff).2 = bytes.length)
    ∧ ∀ other : Buf, (∀ i : Int, 0 ≤ i → i < (serialPackPcb pcb buff).2 →
        other i = (serialPackPcb pcb buff).1 i) → serialUnpackPcb other = pcb

/-- Migration is lossless, as long as the size of the encoded block fits the
    `int` the offsets are kept in. -/
theorem serialPackPcb_lossless (pcb : Pcb) (buff : Buf) (hp : Migratable pcb)
    (hfit : (encPcb pcb).length < 2 ^ 31) : Lossless pcb buff := by
  have hsize : (serialPackPcb pcb buff).2 = (encPcb pcb).length := by
    rw [serialPackPcb_size, toInt_of_lt _ (by omega) (by omega), toSizeT]
    omega
  have hbuf := serialPackPcb_buf pcb buff hfit
  refine ⟨⟨encPcb pcb, hbuf, hsize⟩, fun other hagree => ?_⟩
  rw [hsize, hbuf] at hagree
  refine serialUnpackPcb_of_reads other pcb hp hfit ?_
  exact reads_congr _ _ _ _ (fun i hlo hhi => hagree i hlo (by omega)) (reads_write buff 0 _)

/-- A control block with `n` instructions, a label, and `depth` contexts of one
    argument and `width` variables each. -/
def towerPcb (n depth width : Nat) : Pcb :=
  { idProcess := 1, PC := 0, quantum := 0, status := 0, pagesCode := 1,
    indexCode := List.replicate n ⟨0, 1⟩, instructions := n,
    indexTag := [⟨[108, 111, 111, 112], 1⟩], tags := 1,
    stack := List.replicate depth
      ⟨[⟨48, ⟨0, 0, 4⟩⟩], List.replicate width ⟨97, ⟨0, 0, 4⟩⟩, 0, ⟨0, 0, 4⟩⟩,
    stackPointer := 0, exitCode := 0 }

theorem towerPcb_migratable (n depth width : Nat) (hn : n < 2 ^ 15) (hd : depth < 2 ^ 15)
    (hw : width < 2 ^ 15) : Migratable (towerPcb n depth width) := by
  have hpos : MigratablePos ⟨0, 0, 4⟩ := by
    constructor <;> simp only [Short] <;> omega
  -- The arguments are called `0`, and the variables `a`.
  have hvar : ∀ id : Int, id = 48 ∨ id = 97 → MigratableVar ⟨id, ⟨0, 0, 4⟩⟩ := by
    intro id hid
    exact ⟨by simp only; omega, by simp only; omega, hpos⟩
  refine ⟨?header, ?instructions, rfl, ?depth, ?code, ?names, ?stack⟩
  case header =>
    have hall : Pcb.header (towerPcb n depth width) = [1, 0, 0, 0, 1, (n : Int), 1, 0, 0] := rfl
    intro v hv
    rw [hall] at hv
    simp only [List.mem_cons, List.not_mem_nil, or_false] at hv
    simp only [Short]
    omega
  case instructions => rw [towerPcb, List.length_replicate]
  case depth =>
    rw [towerPcb, List.length_replicate]
    exact hd
  case code =>
    intro i hi
    rw [List.eq_of_mem_replicate hi]
    simp only [Short]
    omega
  case names =>
    intro t ht
    rw [List.mem_singleton.mp ht]
    exact ⟨by decide, by decide, by simp only [Short]; omega⟩
  case stack =>
    intro c hc
    rw [List.eq_of_mem_replicate hc]
    refine ⟨by simp only [Short]; omega, hpos, by simp only [List.length_singleton]; omega, ?_,
      fun v hv => ?_, fun v hv => ?_⟩
    · rw [List.length_replicate]
      exact hw
    · rw [List.mem_singleton.mp hv]
      exact hvar 48 (Or.inl rfl)
    · rw [List.eq_of_mem_replicate hv]
      exact hvar 97 (Or.inr rfl)

theorem towerPcb_length (n depth width : Nat) :
    (encPcb (towerPcb n depth width)).length = 28 + 4 * n + depth * (19 + 7 * width) := by
  have hhead : ((Pcb.header (towerPcb n depth width)).flatMap encH).length = 18 := rfl
  have hcode : entries (towerPcb n depth width).indexCode (towerPcb n depth width).instructions
      = List.replicate n ⟨0, 1⟩ :=
    entries_of_length _ _ (by rw [towerPcb, List.length_replicate])
  have htags : ((entries (towerPcb n depth width).indexTag (towerPcb n depth width).tags).flatMap
      encTag).length = 8 := rfl
  rw [encPcb, hcode, encStack]
  simp only [List.length_append, hhead, htags, encH_length]
  simp only [towerPcb, List.length_flatMap, List.map_replicate, List.sum_replicate_nat,
    encInstruction_length, encContext_length, List.length_replicate, List.length_singleton]
  rw [show 12 + 7 * 1 + 7 * width = 19 + 7 * width by omega]
  omega

/-- Migrating a block with three instructions, a label and two contexts. -/
theorem towerPcb_lossless : Lossless (towerPcb 3 2 2) fun _ => 0 :=
  serialPackPcb_lossless _ _
    (towerPcb_migratable 3 2 2 (by decide) (by decide) (by decide))
    (by rw [towerPcb_length]; decide)

/-- A control block whose encoding is exactly `2^32` bytes long. -/
def hugePcb : Pcb := towerPcb 27 31020 19777

/-- The encoder reports zero bytes for `hugePcb`, so a receiver that takes over
    what it reports decodes something else. -/
theorem hugePcb_not_lossless : ¬ ∀ pcb buff, Migratable pcb → Lossless pcb buff := by
  intro hall
  have hmig : Migratable hugePcb :=
    towerPcb_migratable 27 31020 19777 (by decide) (by decide) (by decide)
  have hlen : (encPcb hugePcb).length = 2 ^ 32 := towerPcb_length 27 31020 19777
  have hsize : (serialPackPcb hugePcb fun _ => 0).2 = 0 := by
    rw [serialPackPcb_size, hlen]
    decide
  have hdec := (hall hugePcb (fun _ => 0) hmig).2 (fun _ => 0)
  rw [hsize] at hdec
  have heq := hdec fun i hlo hhi => absurd hhi (by omega)
  -- Zero bytes hold no instructions, the block has 27.
  have hzero : (serialUnpackPcb fun _ => 0).instructions = 0 := by
    simp only [serialUnpackPcb, unpacki16, UInt8.toNat_ofNat]
    omega
  have hmany : hugePcb.instructions = 27 := rfl
  rw [heq, hmany] at hzero
  exact absurd hzero (by decide)

end Serial

end Esther
