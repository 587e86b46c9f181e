import Esther.Core.Events
import Esther.Theory.Contexts
import Esther.Theory.Encoding

/-!
# Room for a Control Block

How many bytes a control block takes on the wire, and how many it may.

`serial_pack_pcb` is given arrays of `BUFFER_CAPACITY` bytes. What it writes there is a
part that the program decides once and for all, its instructions and its labels, twelve
bytes for each context and seven for each argument or variable. The limit on the stack
bounds the last of these, since `stackPointer` counts the variables. It does not bound the
contexts: a call costs no stack, so a function without variables may call itself as often
as it likes. Nothing else is compared with the size of the arrays either.

## Main definitions

* `programBytes`: What the program takes.
* `LlamadaCabe`: A call after which the control block still has room.

## Theorems

* `pcbBytes_eq`: The size of a control block.
* `serialPackPcb_fits`: A control block that has room is written within the array.
* `room_step`: When a call leaves room.
* `calls_grow`: Calls that the limit on the stack does not count.
* `deep_call_overflows`: A run in which a control block has no room.
* `room_throughout_iff`: The runs in which every control block has room.
-/

namespace Esther

namespace Cpu

open Cells Serial Transition

/-- The bytes of a control block with an empty stack. -/
def programBytes (pcb : Pcb) : Nat :=
  20 + 4 * pcb.instructions.toNat
    + ((List.range pcb.tags.toNat).map fun i =>
        (cstr (pcb.indexTag.getD i default).name).length + 4).sum

theorem stackBytes_eq (stack : List Stack) :
    stackBytes stack = 2 + 12 * stack.length + 7 * (stack.map vivas).sum := by
  unfold stackBytes
  induction stack with
  | nil => rfl
  | cons contexto stack ih =>
      simp only [List.map_cons, List.sum_cons, List.length_cons, varsBytes, vivas] at ih ⊢
      omega

/-- A control block takes what the program takes, twelve bytes for a context and seven for
    an argument or a variable. -/
theorem pcbBytes_eq (pcb : Pcb) :
    pcbBytes pcb = programBytes pcb + 12 * pcb.stack.length + 7 * totalVivas pcb := by
  rw [pcbBytes, stackBytes_eq, programBytes, totalVivas]
  omega

/-- The same, the variables being counted by `stackPointer`. -/
theorem pcbBytes_apilada (config : Config) (pcb : Pcb) (h : Apilada config pcb) :
    (pcbBytes pcb : Int) =
      programBytes pcb + 12 * pcb.stack.length + 7 * (pcb.stackPointer / 4) := by
  have hpointer := apilada_pointer config pcb h
  rw [pcbBytes_eq]
  omega

/-- What has room is written into the first cells of the array, one for each byte. -/
theorem serialPackPcb_fits (pcb : Pcb) (buff : Buf) (h : pcbBytes pcb ≤ bufferCapacity) :
    (serialPackPcb pcb buff).1 = write buff 0 (encPcb pcb) ∧
      (encPcb pcb).length = pcbBytes pcb ∧ (serialPackPcb pcb buff).2 = pcbBytes pcb := by
  have hlength := encPcb_length pcb
  have hsmall : pcbBytes pcb < 2 ^ 31 := by
    unfold bufferCapacity at h
    omega
  refine ⟨serialPackPcb_buf pcb buff (by omega), hlength, ?_⟩
  rw [serialPackPcb_size, hlength, toInt_of_lt _ (by omega) (by omega), toSizeT]
  omega

/-- No primitive changes what the program takes. -/
theorem programBytes_step (config : Config) (s s' : State × Memoria.ServerState)
    (primitiva : Primitiva) (h : primitiva.step config s = some s') :
    programBytes s'.1.pcbActual = programBytes s.1.pcbActual := by
  -- A jump and a return leave the code and the labels alone.
  have hjump : ∀ pcb etiqueta, programBytes (irAlLabel config pcb etiqueta) = programBytes pcb := by
    intro pcb etiqueta
    simp only [irAlLabel]
    split
    · rfl
    · rfl
  have hfinalizar : ∀ r (s : State) f sent, finalizar r s = some (f, sent) →
      programBytes f.pcbActual = programBytes s.pcbActual := by
    intro r s f sent hfin
    simp only [finalizar] at hfin
    split at hfin
    · rw [Option.some.injEq, Prod.mk.injEq] at hfin
      rw [← hfin.1]
      rfl
    · simp only [Option.map_eq_some_iff, Prod.mk.injEq] at hfin
      rcases hfin with ⟨_, _, rfl, _⟩
      rfl
  unfold Primitiva.step at h
  by_cases hended : s.1.finPrograma = true
  · rw [if_pos hended] at h
    exact absurd h (by simp only [reduceCtorEq, not_false_eq_true])
  rw [if_neg hended] at h
  cases primitiva with
  | definirVariable r identificador =>
      obtain rfl := Option.some.inj h
      simp only [definirVariable]
      split
      · rfl
      · rfl
  | llamarSinRetorno etiqueta =>
      obtain rfl := Option.some.inj h
      exact hjump _ etiqueta
  | llamarConRetorno etiqueta dondeRetornar =>
      obtain rfl := Option.some.inj h
      exact hjump _ etiqueta
  | retornar r retorno =>
      rcases Option.map_eq_some_iff.mp h with ⟨⟨f, mem', sent⟩, hret, rfl⟩
      rcases retornar_finalizar config r s.1 f s.2 mem' retorno sent hret with ⟨_, conn, hfin⟩
      exact hfinalizar r { s.1 with conn := conn } f sent hfin
  | finalizar r =>
      rcases Option.map_eq_some_iff.mp h with ⟨⟨f, sent⟩, hfin, rfl⟩
      exact hfinalizar r _ f sent hfin

/-- The calls for which the control block has room, in a program that takes `base` bytes:
    those that put a variable or a context on the stack need seven or twelve bytes more, or
    both if there is no context yet. -/
def LlamadaCabe (config : Config) (base : Nat) (s : State × Memoria.ServerState) :
    Primitiva → Prop
  | .definirVariable _ _ =>
      config.stackSize * config.tamanioPagina < s.1.pcbActual.stackPointer + 4 ∨
        (base : Int) + 12 * (max 1 s.1.pcbActual.stack.length : Nat)
          + 7 * (s.1.pcbActual.stackPointer / 4 + 1) ≤ bufferCapacity
  | .llamarSinRetorno _ | .llamarConRetorno _ _ =>
      (base : Int) + 12 * (s.1.pcbActual.stack.length + 1 : Nat)
        + 7 * (s.1.pcbActual.stackPointer / 4) ≤ bufferCapacity
  | .retornar _ _ | .finalizar _ => True

/-- A call keeps the control block within the array exactly when there is room. -/
theorem room_step (config : Config) (base : Nat) (s s' : State × Memoria.ServerState)
    (primitiva : Primitiva) (h : primitiva.step config s = some s')
    (ha : Apilada config s.1.pcbActual) (hbase : programBytes s.1.pcbActual = base)
    (hfits : pcbBytes s.1.pcbActual ≤ bufferCapacity) :
    pcbBytes s'.1.pcbActual ≤ bufferCapacity ↔ LlamadaCabe config base s primitiva := by
  have hmov := primitiva_cases config s s' primitiva h
  have hbytes := pcbBytes_apilada config _ ha
  have hbytes' := pcbBytes_apilada config _ (apilada_step config _ _ hmov ha)
  rw [programBytes_step config s s' primitiva h] at hbytes'
  rw [hbase] at hbytes hbytes'
  unfold Primitiva.step at h
  by_cases hended : s.1.finPrograma = true
  · rw [if_pos hended] at h
    exact absurd h (by simp only [reduceCtorEq, not_false_eq_true])
  rw [if_neg hended] at h
  -- Taking a context away leaves room, whatever was in it.
  have hback : ∀ r (t : State) f sent, t.pcbActual = s.1.pcbActual →
      finalizar r t = some (f, sent) → f = s'.1 → pcbBytes s'.1.pcbActual ≤ bufferCapacity := by
    intro r t f sent hsame hfin hf
    rcases finalizar_stack r t f sent hfin with ⟨hnil, hnil', hp⟩ | ⟨contexto, hstack, hp⟩
    · rw [hsame] at hnil hp
      rw [← hf, hnil', hp] at hbytes'
      rw [← hf]
      rw [hnil] at hbytes
      omega
    · rw [hsame] at hstack hp
      rw [tamanioVariable] at hp
      rw [← hf, hp] at hbytes'
      rw [← hf]
      rw [hstack, List.length_append, List.length_singleton] at hbytes
      omega
  cases primitiva with
  | definirVariable r identificador =>
      obtain rfl := Option.some.inj h
      simp only [LlamadaCabe]
      by_cases hroom : s.1.pcbActual.stackPointer + 4 ≤ config.stackSize * config.tamanioPagina
      · rcases definirVariable_room config r s.1 identificador hroom with
          ⟨below, contexto, contexto', hstack, _, _, hd⟩
        -- The context of the main body is opened with the first variable.
        have hlength : (below ++ [contexto']).length = max 1 s.1.pcbActual.stack.length := by
          rcases hstack with hlast | ⟨hnil, rfl, _⟩
          · simp only [hlast, List.length_append, List.length_singleton]
            omega
          · simp only [hnil, List.nil_append, List.length_singleton, List.length_nil]
            omega
        simp only [hd, hlength, tamanioVariable] at hbytes' ⊢
        omega
      · have hover := definirVariable_over config r s.1 identificador (by omega)
        simp only [hover]
        exact iff_of_true hfits (.inl (by omega))
  | llamarSinRetorno etiqueta =>
      obtain rfl := Option.some.inj h
      simp only [LlamadaCabe, llamarSinRetorno, (irAlLabel_stack config _ etiqueta).1,
        (irAlLabel_stack config _ etiqueta).2, List.length_append, List.length_singleton]
        at hbytes' ⊢
      omega
  | llamarConRetorno etiqueta dondeRetornar =>
      obtain rfl := Option.some.inj h
      simp only [LlamadaCabe, llamarConRetorno, (irAlLabel_stack config _ etiqueta).1,
        (irAlLabel_stack config _ etiqueta).2, List.length_append, List.length_singleton]
        at hbytes' ⊢
      omega
  | retornar r retorno =>
      rcases Option.map_eq_some_iff.mp h with ⟨⟨f, mem', sent⟩, hret, rfl⟩
      rcases retornar_finalizar config r s.1 f s.2 mem' retorno sent hret with ⟨_, conn, hfin⟩
      exact iff_of_true (hback r { s.1 with conn := conn } f sent rfl hfin rfl) trivial
  | finalizar r =>
      rcases Option.map_eq_some_iff.mp h with ⟨⟨f, sent⟩, hfin, rfl⟩
      exact iff_of_true (hback r s.1 f sent rfl hfin rfl) trivial

/-- The kernel the process of `callStart` comes from. -/
def callKernel : Kernel.Config :=
  { quantum := 0, stackSize := 2, pageSize := 4, semIds := [], sharedVars := [],
    pageSizePos := Int.natCast_succ_pos 3 }

/-- A process as `crear_pcb_proceso` makes it has an empty stack. -/
theorem crearPcbProceso_stack (parser : Parser) (config : Kernel.Config) (k k' : Kernel.State)
    (program : MetadataProgram) (pcb : Pcb)
    (h : Kernel.crearPcbProceso parser config k program = some (k', pcb)) :
    pcb.stack = [] ∧ pcb.stackPointer = 0 := by
  simp only [Kernel.crearPcbProceso] at h
  split at h
  · exact absurd h (by simp only [reduceCtorEq, not_false_eq_true])
  · split at h
    · rw [Option.some.injEq, Prod.mk.injEq] at h
      rw [← h.2]
      exact ⟨rfl, rfl⟩
    · exact absurd h (by simp only [reduceCtorEq, not_false_eq_true])

/-- Calls of functions without variables grow the control block and leave `stackPointer`
    where it is, as many as there are. -/
theorem calls_grow (config : Config) (etiqueta : List UInt8) (n : Nat)
    (s : State × Memoria.ServerState) (hfin : s.1.finPrograma = false) :
    ∃ s', run (Primitiva.step config) s (List.replicate n (.llamarSinRetorno etiqueta))
        = some s' ∧
      s'.1.pcbActual.stackPointer = s.1.pcbActual.stackPointer ∧
      pcbBytes s'.1.pcbActual = pcbBytes s.1.pcbActual + 12 * n := by
  induction n generalizing s with
  | zero => exact ⟨s, rfl, rfl, rfl⟩
  | succ n ih =>
      have hstep : (Primitiva.llamarSinRetorno etiqueta).step config s = some
          ({ s.1 with pcbActual := llamarSinRetorno config s.1.pcbActual etiqueta }, s.2) := by
        rw [Primitiva.step, hfin, if_neg Bool.false_ne_true]
      rcases ih ({ s.1 with pcbActual := llamarSinRetorno config s.1.pcbActual etiqueta }, s.2)
        hfin with ⟨s', hrun, hpointer, hbytes⟩
      refine ⟨s', (run_cons _ _ _ _ _).mpr ⟨_, hstep, hrun⟩, ?_, ?_⟩
      · rw [hpointer]
        exact (irAlLabel_stack config _ etiqueta).2
      · -- A context without variables takes twelve bytes.
        have hprogram := programBytes_step config _ _ _ hstep
        rw [hbytes, pcbBytes_eq, pcbBytes_eq, hprogram, totalVivas, totalVivas]
        simp only [llamarSinRetorno, (irAlLabel_stack config _ etiqueta).1, List.length_append,
          List.length_singleton, List.map_append, List.map_singleton, List.sum_append,
          List.sum_singleton, tStackCreate, vivas, List.length_nil]
        omega

/-- A function without variables that calls itself 83 times: the limit on the stack is not
    touched, and the control block has outgrown the array. -/
theorem deep_call_overflows : ∃ s,
    run (Primitiva.step callConfig) callStart (List.replicate 83 (.llamarSinRetorno [102]))
      = some s ∧
    s.1.pcbActual.stackPointer = 0 ∧ bufferCapacity < pcbBytes s.1.pcbActual := by
  rcases calls_grow callConfig [102] 83 callStart rfl with ⟨s, hrun, hpointer, hbytes⟩
  have hstart : pcbBytes callStart.1.pcbActual = 29 := by decide
  refine ⟨s, hrun, hpointer, ?_⟩
  rw [hbytes, hstart, bufferCapacity]
  decide

/-- In a run of a new process every control block has room in the arrays it is packed into
    exactly when the program has room by itself and every call is made with room for what
    it puts on the stack. -/
theorem room_throughout_iff (parser : Parser) (kernelConfig : Kernel.Config) (k k' : Kernel.State)
    (program : MetadataProgram) (pcb : Pcb) (config : Config) (s₀ s : State × Memoria.ServerState)
    (primitivas : List Primitiva)
    (hcrear : Kernel.crearPcbProceso parser kernelConfig k program = some (k', pcb))
    (hstart : s₀.1.pcbActual = pcb)
    (hrun : run (Primitiva.step config) s₀ primitivas = some s) :
    Throughout (Primitiva.step config) (fun s => pcbBytes s.1.pcbActual ≤ bufferCapacity) s₀
        primitivas ↔
      programBytes pcb ≤ bufferCapacity ∧
        Along (Primitiva.step config) (LlamadaCabe config (programBytes pcb)) s₀ primitivas := by
  rcases crearPcbProceso_stack parser kernelConfig k k' program pcb hcrear with ⟨hstack, hpointer⟩
  have ha : Apilada config s₀.1.pcbActual := by
    rw [hstart, Apilada, hstack, hpointer]
    rfl
  have hsize : pcbBytes s₀.1.pcbActual = programBytes pcb := by
    rw [hstart, pcbBytes_eq, hstack, totalVivas, hstack]
    rfl
  by_cases hprogram : programBytes pcb ≤ bufferCapacity
  · -- The invariant is that of the stack, with the part of the program unchanged.
    rw [throughout_iff_along (Primitiva.step config) (LlamadaCabe config (programBytes pcb))
      (fun s => Apilada config s.1.pcbActual ∧ programBytes s.1.pcbActual = programBytes pcb)
      (fun s => pcbBytes s.1.pcbActual ≤ bufferCapacity)
      (fun s p u hj _ _ hstep =>
        ⟨apilada_step config _ _ (primitiva_cases config s u p hstep) hj.1,
          (programBytes_step config s u p hstep).trans hj.2⟩)
      (fun s p u hj hp hstep => room_step config _ s u p hstep hj.1 hj.2 hp)
      s₀ s primitivas ⟨ha, congrArg programBytes hstart⟩ (by rw [hsize]; exact hprogram) hrun]
    exact ⟨fun h => ⟨hprogram, h⟩, fun h => h.2⟩
  · -- The new process has no room.
    refine iff_of_false (fun h => hprogram ?_) fun h => hprogram h.1
    rw [← hsize]
    exact throughout_head (Primitiva.step config)
      (fun s => pcbBytes s.1.pcbActual ≤ bufferCapacity) _ _ h

/-- A program of one instruction that defines a variable and calls a function. -/
theorem room_throughout_call : ∃ k' pcb,
    Kernel.crearPcbProceso callConfig.parser callKernel (Kernel.State.init 3 4 [] 0)
      (callConfig.parser.metadataDesdeLiteral fun _ => 0) = some (k', pcb) ∧
    (Throughout (Primitiva.step callConfig)
        (fun s => pcbBytes s.1.pcbActual ≤ bufferCapacity)
        ({ callStart.1 with pcbActual := pcb }, callStart.2)
        [.definirVariable callResidue 97, .llamarSinRetorno [102]] ↔
      programBytes pcb ≤ bufferCapacity ∧
        Along (Primitiva.step callConfig) (LlamadaCabe callConfig (programBytes pcb))
          ({ callStart.1 with pcbActual := pcb }, callStart.2)
          [.definirVariable callResidue 97, .llamarSinRetorno [102]]) :=
  ⟨_, _, rfl, room_throughout_iff callConfig.parser callKernel (Kernel.State.init 3 4 [] 0) _
    (callConfig.parser.metadataDesdeLiteral fun _ => 0) _ callConfig
    ({ callStart.1 with pcbActual := _ }, callStart.2) _
    [.definirVariable callResidue 97, .llamarSinRetorno [102]] rfl rfl rfl⟩

end Cpu

end Esther
