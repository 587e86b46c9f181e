import Esther.Theory.Wire

/-!
# What the Encoders Store

The control block encoders, reduced to the list of bytes they store.

`Emits buff w w' bs` says that going from writer `w` to writer `w'` stores the
bytes `bs`. Its two halves have different hypotheses on purpose. The offset
`tam` is an `int` that is converted after every addition, so what it ends up
holding is known unconditionally: the length of everything stored, converted
once. Where the bytes went is known only while that length stays inside an
`int`, since a converted offset would start over at the other end of memory.

Emission composes along append, so each encoder is read off its own text: one
`Emits` for each call it makes.

## Main definitions

* `Emits`: A writer step stores a list of bytes.
* `Produces`: An encoder stores a list of bytes.
* `encVar`, `encVars`, `encContext`, `encStack`, `encPcb`: The bytes of each
  record.

## Theorems

* `emits_trans`: Emission composes along append.
* `emits_call`: Calling an encoder emits what it produces.
* `emits_foldl`: A loop emits what its rounds emit.
* `serialPackVars_produces`, `serialPackStack_produces`: The nested encoders.
* `serialPackPcb_tam`: What the control block encoder returns.
* `serialPackPcb_buf`: What the control block encoder leaves in the buffer.
-/

namespace Esther

namespace Serial

open Cells

/-- Going from `w` to `w'` stores the bytes `bs` at `buff+tam`. -/
def Emits (buff : Int) (w w' : Writer) (bs : List UInt8) : Prop :=
  w'.tam = toInt (w.tam + bs.length) ∧
    (0 ≤ w.tam → w.tam + bs.length < 2 ^ 31 → w'.buf = write w.buf (buff + w.tam) bs)

/-- The encoder stores the bytes `bs` at its `buff`, and returns their number
    up to the conversion its caller applies. -/
def Produces (f : Buf → Int → Buf × Nat) (bs : List UInt8) : Prop :=
  ∀ buf pos, toInt (f buf pos).2 = toInt bs.length ∧
    (bs.length < 2 ^ 31 → (f buf pos).1 = write buf pos bs)

theorem emits_refl (buff : Int) (w : Writer) (htam : toInt w.tam = w.tam) :
    Emits buff w w [] := by
  refine ⟨?_, fun _ _ => rfl⟩
  rw [List.length_nil, Int.natCast_zero, Int.add_zero, htam]

/-- Emission composes along append. -/
theorem emits_trans (buff : Int) (w₁ w₂ w₃ : Writer) (xs ys : List UInt8)
    (hx : Emits buff w₁ w₂ xs) (hy : Emits buff w₂ w₃ ys) : Emits buff w₁ w₃ (xs ++ ys) := by
  have hlen : ((xs ++ ys).length : Int) = xs.length + ys.length := by
    rw [List.length_append, Int.natCast_add]
  refine ⟨?_, fun hpos hlt => ?_⟩
  · rw [hy.1, hx.1, toInt_toInt_add, hlen, Int.add_assoc]
  · rw [hlen] at hlt
    -- The first half fits, so its offset is the plain sum.
    have htam : w₂.tam = w₁.tam + xs.length := by
      rw [hx.1, toInt_of_lt _ (by omega) (by omega)]
    rw [hy.2 (by omega) (by omega), hx.2 hpos (by omega), htam, write_append, Int.add_assoc]

/-- Calling an encoder emits what it produces. -/
theorem emits_call (buff : Int) (w : Writer) (f : Buf → Int → Buf × Nat) (bs : List UInt8)
    (hf : Produces f bs) : Emits buff w (w.call buff f) bs := by
  have hprod := hf w.buf (buff + w.tam)
  refine ⟨?_, fun hpos hlt => ?_⟩
  · show toInt (w.tam + _) = _
    rw [← toInt_add_toInt, hprod.1, toInt_add_toInt]
  · exact hprod.2 (by omega)

theorem produces_serialPack (args : List Arg) :
    Produces (fun buf pos => serialPack buf pos args) (encArgs args) := by
  intro buf pos
  have heq := serialPack_eq buf pos args
  refine ⟨?_, fun _ => ?_⟩
  · simp only [heq]
  · simp only [heq]

theorem emits_pack (buff : Int) (w : Writer) (args : List Arg) :
    Emits buff w (w.pack buff args) (encArgs args) :=
  emits_call buff w _ _ (produces_serialPack args)

/-- The offset of a writer is always a converted one once something has been
    packed through it. -/
theorem toInt_tam_of_emits (buff : Int) (w w' : Writer) (bs : List UInt8)
    (h : Emits buff w w' bs) : toInt w'.tam = w'.tam := by
  rw [h.1]
  exact Int.bmod_bmod

/-- A loop emits what its rounds emit. -/
theorem emits_foldl {α : Type*} (buff : Int) (f : Writer → α → Writer) (enc : α → List UInt8)
    (xs : List α) (w : Writer) (htam : toInt w.tam = w.tam)
    (hround : ∀ x ∈ xs, ∀ v, Emits buff v (f v x) (enc x)) :
    Emits buff w (xs.foldl f w) (xs.flatMap enc) := by
  induction xs generalizing w with
  | nil => exact emits_refl buff w htam
  | cons x xs ih =>
      have hfirst := hround x (List.mem_cons_self) w
      rw [List.foldl_cons, List.flatMap_cons]
      refine emits_trans buff _ _ _ _ _ hfirst ?_
      exact ih _ (toInt_tam_of_emits buff _ _ _ hfirst)
        fun y hy => hround y (List.mem_cons_of_mem x hy)

/-- An encoder that starts a writer of its own and returns its offset produces
    what that writer emits. -/
theorem produces_of_emits (f : Buf → Int → Buf × Nat) (bs : List UInt8)
    (h : ∀ buf buff, ∃ w, f buf buff = Writer.result w ∧ Emits buff (Writer.mk buf 0) w bs) :
    Produces f bs := by
  intro buf pos
  rcases h buf pos with ⟨w, hres, htam, hstore⟩
  rw [Int.zero_add] at htam
  rw [hres]
  refine ⟨?_, fun hlt => ?_⟩
  · rw [Writer.result, toInt_toSizeT, htam]
    exact Int.bmod_bmod
  · have hbuf := hstore (le_refl 0) (by rw [Int.zero_add]; omega)
    rw [Int.add_zero] at hbuf
    exact hbuf

/-- The bytes of a variable. -/
def encVar (v : Var) : List UInt8 :=
  encArgs [.c v.id, .h v.mempos.page, .h v.mempos.offset, .h v.mempos.size]

/-- The bytes of a list of variables, its length in front. -/
def encVars (vs : List Var) : List UInt8 := encH vs.length ++ vs.flatMap encVar

/-- The bytes of a stack context. -/
def encContext (c : Stack) : List UInt8 :=
  encH c.retPos ++ encVars c.args ++ encVars c.vars
    ++ encArgs [.h c.retVar.page, .h c.retVar.offset, .h c.retVar.size]

/-- The bytes of the stack index, its depth in front. -/
def encStack (st : List Stack) : List UInt8 := encH st.length ++ st.flatMap encContext

/-- The bytes of an entry of the code index. -/
def encInstruction (i : Instruction) : List UInt8 := encH i.start ++ encH i.offset

/-- The bytes of a tag. -/
def encTag (t : ProgramTag) : List UInt8 := encArg (.s t.name) ++ encH t.PC

/-- The entries a loop counting to `n` reads from an array. -/
def entries {α : Type*} [Inhabited α] (xs : List α) (n : Int) : List α :=
  (List.range n.toNat).map fun i => xs.getD i default

/-- When the count matches the array, the loop reads the array. -/
theorem entries_of_length {α : Type*} [Inhabited α] (xs : List α) (n : Int) (h : n = xs.length) :
    entries xs n = xs := by
  refine List.ext_getElem ?_ fun i hi hi' => ?_
  · simp only [entries, List.length_map, List.length_range]
    omega
  · simp only [entries, List.getElem_map, List.getElem_range]
    rw [List.getD_eq_getElem?_getD, List.getElem?_eq_getElem hi', Option.getD_some]

@[simp] theorem entries_length {α : Type*} [Inhabited α] (xs : List α) (n : Int) :
    (entries xs n).length = n.toNat := by
  rw [entries, List.length_map, List.length_range]

/-- The bytes of a control block. -/
def encPcb (pcb : Pcb) : List UInt8 :=
  (Pcb.header pcb).flatMap encH
    ++ (entries pcb.indexCode pcb.instructions).flatMap encInstruction
    ++ (entries pcb.indexTag pcb.tags).flatMap encTag
    ++ encStack pcb.stack

theorem encH_length (v : Int) : (encH v).length = 2 := rfl

theorem encHeader_length (pcb : Pcb) : ((Pcb.header pcb).flatMap encH).length = 18 := rfl

theorem encVar_length (v : Var) : (encVar v).length = 7 := rfl

theorem encVars_length (vs : List Var) : (encVars vs).length = 2 + 7 * vs.length := by
  have hbody : (vs.flatMap encVar).length = 7 * vs.length := by
    induction vs with
    | nil => rfl
    | cons v vs ih =>
        rw [List.flatMap_cons, List.length_append, encVar_length, ih, List.length_cons]
        omega
  rw [encVars, List.length_append, encH_length, hbody]

theorem encContext_length (c : Stack) :
    (encContext c).length = 12 + 7 * c.args.length + 7 * c.vars.length := by
  have hret : (encArgs [.h c.retVar.page, .h c.retVar.offset, .h c.retVar.size]).length = 6 := rfl
  simp only [encContext, List.length_append, encH_length, encVars_length, hret]
  omega

theorem encStack_length (st : List Stack) : (encStack st).length = stackBytes st := by
  have hbody : (st.flatMap encContext).length
      = (st.map fun aux => 8 + varsBytes aux.args + varsBytes aux.vars).sum := by
    induction st with
    | nil => rfl
    | cons c st ih =>
        rw [List.flatMap_cons, List.length_append, ih, List.map_cons, List.sum_cons,
          encContext_length]
        simp only [varsBytes]
        omega
  rw [encStack, List.length_append, encH_length, hbody, stackBytes]

/-- The bytes of a control block are as many as the room it needs. -/
theorem encPcb_length (pcb : Pcb) : (encPcb pcb).length = pcbBytes pcb := by
  have hcode : ∀ is : List Instruction, (is.flatMap encInstruction).length = 4 * is.length := by
    intro is
    induction is with
    | nil => rfl
    | cons i is ih =>
        rw [List.flatMap_cons, List.length_append, ih, List.length_cons]
        simp only [encInstruction, List.length_append, encH_length]
        omega
  have htags : ∀ ts : List ProgramTag, (ts.flatMap encTag).length
      = (ts.map fun t => (cstr t.name).length + 4).sum := by
    intro ts
    induction ts with
    | nil => rfl
    | cons t ts ih =>
        rw [List.flatMap_cons, List.length_append, ih, List.map_cons, List.sum_cons]
        simp only [encTag, encArg, List.length_append, encH_length]
        omega
  rw [encPcb, List.length_append, List.length_append, List.length_append, encHeader_length, hcode,
    htags, encStack_length]
  simp only [entries, List.length_map, List.length_range, List.map_map, pcbBytes]
  rfl

theorem encArgs_h (v : Int) : encArgs [.h v] = encH v := by
  simp only [encArgs, List.flatMap_cons, List.flatMap_nil, List.append_nil, encArg]

theorem encArgs_s (s : List UInt8) : encArgs [.s s] = encArg (.s s) := by
  simp only [encArgs, List.flatMap_cons, List.flatMap_nil, List.append_nil]

theorem emits_h (buff : Int) (w : Writer) (v : Int) :
    Emits buff w (w.pack buff [.h v]) (encH v) := by
  have h := emits_pack buff w [.h v]
  rwa [encArgs_h] at h

theorem emits_s (buff : Int) (w : Writer) (s : List UInt8) :
    Emits buff w (w.pack buff [.s s]) (encArg (.s s)) := by
  have h := emits_pack buff w [.s s]
  rwa [encArgs_s] at h

theorem serialPackVars_produces (vs : List Var) : Produces (serialPackVars vs) (encVars vs) := by
  refine produces_of_emits _ _ fun buf buff => ⟨_, rfl, ?_⟩
  have hcount := emits_h buff (Writer.mk buf 0) vs.length
  refine emits_trans buff _ _ _ _ _ hcount ?_
  exact emits_foldl buff _ encVar vs _ (toInt_tam_of_emits buff _ _ _ hcount)
    fun v _ w => emits_pack buff w _

theorem packContext_emits (buff : Int) (w : Writer) (c : Stack) :
    Emits buff w (w.packContext buff c) (encContext c) := by
  have hret := emits_h buff w c.retPos
  have hargs := emits_call buff (w.pack buff [.h c.retPos]) _ _ (serialPackVars_produces c.args)
  have hvars := emits_call buff ((w.pack buff [.h c.retPos]).call buff (serialPackVars c.args))
    _ _ (serialPackVars_produces c.vars)
  have hfirst := emits_trans buff _ _ _ _ _ (emits_trans buff _ _ _ _ _ hret hargs) hvars
  exact emits_trans buff _ _ _ _ _ hfirst (emits_pack buff _ _)

theorem serialPackStack_produces (st : List Stack) :
    Produces (serialPackStack st) (encStack st) := by
  refine produces_of_emits _ _ fun buf buff => ⟨_, rfl, ?_⟩
  have hcount := emits_h buff (Writer.mk buf 0) st.length
  refine emits_trans buff _ _ _ _ _ hcount ?_
  exact emits_foldl buff _ encContext st _ (toInt_tam_of_emits buff _ _ _ hcount)
    fun c _ w => packContext_emits buff w c

/-- The writer after the nine integers, after the code index, and after the
    tags of `serial_pack_pcb`. -/
def headerWriter (pcb : Pcb) (buff : Buf) : Writer :=
  (Pcb.header pcb).foldl (fun w v => w.pack 0 [.h v]) (Writer.mk buff 0)

def codeWriter (pcb : Pcb) (buff : Buf) : Writer :=
  (List.range pcb.instructions.toNat).foldl (fun w i => w.packInstruction pcb i)
    (headerWriter pcb buff)

def tagWriter (pcb : Pcb) (buff : Buf) : Writer :=
  (List.range pcb.tags.toNat).foldl (fun w i => w.packTag pcb i) (codeWriter pcb buff)

theorem serialPackPcb_eq (pcb : Pcb) (buff : Buf) :
    serialPackPcb pcb buff
      = ((tagWriter pcb buff).call 0 (serialPackStack pcb.stack)).result := rfl

/-- In front of the tags the encoder emits the nine integers and the code index. -/
theorem codeWriter_emits (pcb : Pcb) (buff : Buf) :
    Emits 0 (Writer.mk buff 0) (codeWriter pcb buff)
      ((Pcb.header pcb).flatMap encH
        ++ (entries pcb.indexCode pcb.instructions).flatMap encInstruction) := by
  have hhead : Emits 0 (Writer.mk buff 0) (headerWriter pcb buff)
      ((Pcb.header pcb).flatMap encH) :=
    emits_foldl 0 _ encH _ _ rfl fun v _ w => emits_h 0 w v
  have hcode : Emits 0 (headerWriter pcb buff) (codeWriter pcb buff)
      ((entries pcb.indexCode pcb.instructions).flatMap encInstruction) := by
    rw [entries, List.flatMap_map]
    exact emits_foldl 0 _ _ _ _ (toInt_tam_of_emits 0 _ _ _ hhead)
      fun i _ w => emits_trans 0 _ _ _ _ _ (emits_h 0 w _) (emits_h 0 _ _)
  exact emits_trans 0 _ _ _ _ _ hhead hcode

/-- The control block encoder emits the nine integers, then what its two loops
    emit, then the stack. -/
theorem serialPackPcb_emits (pcb : Pcb) (buff : Buf) :
    Emits 0 (Writer.mk buff 0) ((tagWriter pcb buff).call 0 (serialPackStack pcb.stack))
      (encPcb pcb) := by
  have hcode := codeWriter_emits pcb buff
  have htags : Emits 0 (codeWriter pcb buff) (tagWriter pcb buff)
      ((entries pcb.indexTag pcb.tags).flatMap encTag) := by
    rw [entries, List.flatMap_map]
    exact emits_foldl 0 _ _ _ _ (toInt_tam_of_emits 0 _ _ _ hcode)
      fun i _ w => emits_trans 0 _ _ _ _ _ (emits_s 0 w _) (emits_h 0 _ _)
  have hstack := emits_call 0 (tagWriter pcb buff) _ _ (serialPackStack_produces pcb.stack)
  exact emits_trans 0 _ _ _ _ _ (emits_trans 0 _ _ _ _ _ hcode htags) hstack

/-- What `serial_pack_pcb` returns: the number of bytes stored, converted to
    `int` and from there to `size_t`. -/
theorem serialPackPcb_size (pcb : Pcb) (buff : Buf) :
    (serialPackPcb pcb buff).2 = toSizeT (toInt (encPcb pcb).length) := by
  have htam := (serialPackPcb_emits pcb buff).1
  rw [Int.zero_add] at htam
  rw [serialPackPcb_eq, Writer.result, htam]

/-- What `serial_pack_pcb` leaves in the buffer, as long as its offset fits. -/
theorem serialPackPcb_buf (pcb : Pcb) (buff : Buf) (hlt : (encPcb pcb).length < 2 ^ 31) :
    (serialPackPcb pcb buff).1 = write buff 0 (encPcb pcb) := by
  have hbuf := (serialPackPcb_emits pcb buff).2 (le_refl 0) (by rw [Int.zero_add]; omega)
  rw [Int.add_zero] at hbuf
  rw [serialPackPcb_eq, Writer.result, hbuf]

end Serial

end Esther
