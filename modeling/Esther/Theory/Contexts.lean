import Esther.Core.Cpu
import Esther.Lib.Frames
import Esther.Lib.Transition

/-!
# The Stack of a Process

The contexts of a process and the positions of its variables, after any calls of the
primitives that work on the stack.

`definirVariable` gives a variable the position `stackPointer`, `finalizar` takes the
last context away and as much off `stackPointer` as its arguments and variables are
worth. That the two fit together is the statement of `Frames.Stacked`: each context
holds the positions between the ones below it and those above. A context lists arguments
and variables apart, so it holds them in an order of its own.

A process is followed until `finPrograma` is set.

## Main definitions

* `Primitiva`, `Primitiva.step`: A call of one of the five primitives.
* `posicion`, `marco`, `posiciones`: The position of a variable, and those of a context and
  of a process.
* `Apilada`: The contexts are stacked, up to `stackPointer`.
* `Movimiento`: What a call does to the stack.

## Theorems

* `definirVariable_over`, `definirVariable_room`: The two cases of `definirVariable`.
* `finalizar_stack`: What `finalizar` takes away.
* `primitiva_cases`: Every call does one of four things to the stack.
* `apilada_step`: Every call keeps the contexts stacked.
* `stack_discipline`: The positions after any calls.
-/

namespace Esther

namespace Cpu

open Frames Transition

/-- A call of one of the primitives that work on the stack, with what it finds in memory
    nobody has written. -/
inductive Primitiva
  | definirVariable (r : Residue) (identificador : Int)
  | llamarSinRetorno (etiqueta : List UInt8)
  | llamarConRetorno (etiqueta : List UInt8) (dondeRetornar : Int)
  | retornar (r : Residue) (retorno : Int)
  | finalizar (r : Residue)

/-- The state of the process and the memory server after a call. A program that has ended
    makes no more. -/
def Primitiva.step (config : Config) (s : State × Memoria.ServerState) :
    Primitiva → Option (State × Memoria.ServerState)
  | primitiva =>
    if s.1.finPrograma then none
    else match primitiva with
      | .definirVariable r identificador =>
          some ((Cpu.definirVariable config r s.1 identificador).1, s.2)
      | .llamarSinRetorno etiqueta =>
          some ({ s.1 with pcbActual := Cpu.llamarSinRetorno config s.1.pcbActual etiqueta }, s.2)
      | .llamarConRetorno etiqueta dondeRetornar =>
          some ({ s.1 with
            pcbActual := Cpu.llamarConRetorno config s.1.pcbActual etiqueta dondeRetornar }, s.2)
      | .retornar r retorno => (Cpu.retornar config r s.1 s.2 retorno).map fun f => (f.1, f.2.1)
      | .finalizar r => (Cpu.finalizar r s.1).map fun f => (f.1, s.2)

/-- The absolute position of an argument or a variable. -/
def posicion (config : Config) (var : Var) : Int :=
  var.mempos.page * config.tamanioPagina + var.mempos.offset

/-- Page and offset are the quotient and the remainder of the same division. -/
theorem posicion_nueva (config : Config) (id puntero : Int) :
    posicion config
      { id := id
        mempos :=
          { page := puntero.tdiv config.tamanioPagina
            offset := puntero.tmod config.tamanioPagina
            size := tamanioVariable } } = puntero :=
  Int.tdiv_mul_add_tmod _ _

/-- The positions of a context. -/
def marco (config : Config) (contexto : Stack) : List Int :=
  (contexto.args ++ contexto.vars).map (posicion config)

/-- How many arguments and variables a context has. -/
def vivas (contexto : Stack) : Nat := contexto.args.length + contexto.vars.length

@[simp] theorem marco_length (config : Config) (contexto : Stack) :
    (marco config contexto).length = vivas contexto := by
  rw [marco, List.length_map, List.length_append, vivas]

/-- The contexts hold the positions below `stackPointer`, each the ones above those of the
    context before. -/
def Apilada (config : Config) (pcb : Pcb) : Prop :=
  Stacked tamanioVariable 0 (pcb.stack.map (marco config)) pcb.stackPointer

/-! ### What the primitives do to the stack -/

/-- A variable for which there is no room changes nothing but the flag. -/
theorem definirVariable_over (config : Config) (r : Residue) (s : State) (identificador : Int)
    (h : config.stackSize * config.tamanioPagina < s.pcbActual.stackPointer + 4) :
    (definirVariable config r s identificador).1 = { s with huboStackOver := true } := by
  simp only [definirVariable]
  rw [if_pos h]

/-- A variable for which there is room is put into the last context, which is opened if
    there is none, at `stackPointer`. -/
theorem definirVariable_room (config : Config) (r : Residue) (s : State) (identificador : Int)
    (h : s.pcbActual.stackPointer + 4 ≤ config.stackSize * config.tamanioPagina) :
    ∃ below contexto contexto',
      (s.pcbActual.stack = below ++ [contexto] ∨
        s.pcbActual.stack = [] ∧ below = [] ∧ contexto = tStackCreate) ∧
      (marco config contexto').Perm (s.pcbActual.stackPointer :: marco config contexto) ∧
      contexto'.retPos = contexto.retPos ∧
      (definirVariable config r s identificador).1 =
        { s with pcbActual := { s.pcbActual with
            stack := below ++ [contexto']
            stackPointer := s.pcbActual.stackPointer + tamanioVariable } } := by
  -- An argument or a variable: in the one list or the other, the position is the same.
  have hcontexto : ∀ contexto : Stack, ∃ contexto' : Stack,
      (if esArgumento identificador then
        { contexto with args := contexto.args ++ [{ id := r.id, mempos :=
          { page := s.pcbActual.stackPointer.tdiv config.tamanioPagina
            offset := s.pcbActual.stackPointer.tmod config.tamanioPagina
            size := tamanioVariable } }] }
      else
        { contexto with vars := contexto.vars ++ [{ id := identificador, mempos :=
          { page := s.pcbActual.stackPointer.tdiv config.tamanioPagina
            offset := s.pcbActual.stackPointer.tmod config.tamanioPagina
            size := tamanioVariable } }] }) = contexto' ∧
      (marco config contexto').Perm (s.pcbActual.stackPointer :: marco config contexto) ∧
      contexto'.retPos = contexto.retPos := by
    intro contexto
    by_cases harg : esArgumento identificador = true
    · refine ⟨_, if_pos harg, ?_, rfl⟩
      simp only [marco, List.map_append, List.map_cons, List.map_nil, posicion_nueva]
      rw [List.append_assoc]
      exact List.perm_middle
    · refine ⟨_, if_neg harg, ?_, rfl⟩
      simp only [marco, List.map_append, List.map_cons, List.map_nil, posicion_nueva]
      rw [← List.append_assoc]
      exact List.perm_append_singleton _ _
  simp only [definirVariable]
  rw [if_neg (by omega)]
  simp only [enContexto]
  cases hlast : s.pcbActual.stack.getLast? with
  | none =>
      rcases hcontexto tStackCreate with ⟨contexto', hc, hperm, hret⟩
      refine ⟨[], tStackCreate, contexto', .inr ⟨List.getLast?_eq_none_iff.mp hlast, rfl, rfl⟩,
        hperm, hret, ?_⟩
      simp only [hc, List.nil_append]
  | some contexto =>
      rcases hcontexto contexto with ⟨contexto', hc, hperm, hret⟩
      refine ⟨s.pcbActual.stack.dropLast, contexto, contexto', .inl ?_, hperm, hret, ?_⟩
      · exact (List.dropLast_append_getLast? contexto hlast).symm
      · simp only [hc]

/-- A jump changes the program counter only. -/
theorem irAlLabel_stack (config : Config) (pcb : Pcb) (etiqueta : List UInt8) :
    (irAlLabel config pcb etiqueta).stack = pcb.stack ∧
      (irAlLabel config pcb etiqueta).stackPointer = pcb.stackPointer := by
  simp only [irAlLabel]
  split
  · exact ⟨rfl, rfl⟩
  · exact ⟨rfl, rfl⟩

/-- `finalizar` takes the last context and its positions off the stack. -/
theorem finalizar_stack (r : Residue) (s s' : State) (sent : List Packet)
    (h : finalizar r s = some (s', sent)) :
    (s.pcbActual.stack = [] ∧ s'.pcbActual.stack = [] ∧
        s'.pcbActual.stackPointer = s.pcbActual.stackPointer) ∨
    ∃ contexto, s.pcbActual.stack = s'.pcbActual.stack ++ [contexto] ∧
      s'.pcbActual.stackPointer = s.pcbActual.stackPointer - tamanioVariable * vivas contexto := by
  simp only [finalizar] at h
  cases hlast : s.pcbActual.stack.getLast? with
  | none =>
      have hnil := List.getLast?_eq_none_iff.mp hlast
      rw [hlast, hnil] at h
      simp only [List.dropLast_nil, Option.map_eq_some_iff, Prod.mk.injEq] at h
      rcases h with ⟨_, _, rfl, _⟩
      exact .inl ⟨hnil, rfl, rfl⟩
  | some contexto =>
      have hsplit := List.dropLast_append_getLast? contexto hlast
      refine .inr ⟨contexto, ?_⟩
      rw [hlast] at h
      split at h
      -- A context is left, to which the process returns.
      · rename_i c below heq hc
        rw [Option.some.injEq, Prod.mk.injEq] at h
        rcases h with ⟨rfl, _⟩
        exact ⟨hsplit.symm, by simp only [vivas, Nat.cast_add]⟩
      · simp only [Option.map_eq_some_iff, Prod.mk.injEq] at h
        rcases h with ⟨_, _, rfl, _⟩
        exact ⟨hsplit.symm, by simp only [vivas, Nat.cast_add]⟩

/-- `retornar` is `finalizar` after a store. -/
theorem retornar_finalizar (config : Config) (r : Residue) (s s' : State)
    (mem mem' : Memoria.ServerState) (retorno : Int) (sent : List Packet)
    (h : retornar config r s mem retorno = some (s', mem', sent)) :
    s.pcbActual.stack ≠ [] ∧ ∃ conn, finalizar r { s with conn := conn } = some (s', sent) := by
  unfold retornar at h
  cases hlast : s.pcbActual.stack.getLast? with
  | none =>
      rw [hlast] at h
      exact absurd h (by simp only [reduceCtorEq, not_false_eq_true])
  | some contexto =>
      refine ⟨fun hnil => ?_, ?_⟩
      · rw [hnil] at hlast
        exact absurd hlast (by simp only [List.getLast?_nil, reduceCtorEq, not_false_eq_true])
      · simp only [hlast, Option.map_eq_some_iff, Prod.mk.injEq] at h
        rcases h with ⟨⟨f, packets⟩, hfin, rfl, _, rfl⟩
        exact ⟨_, hfin⟩

/-- What a call of one of the primitives does to the stack. -/
inductive Movimiento (config : Config) (pcb pcb' : Pcb) : Prop
  | ninguno (hstack : pcb'.stack = pcb.stack) (hpointer : pcb'.stackPointer = pcb.stackPointer)
  | nueva (below : List Stack) (contexto contexto' : Stack)
      (hstack : pcb.stack = below ++ [contexto] ∨
        pcb.stack = [] ∧ below = [] ∧ contexto = tStackCreate)
      (hmarco : (marco config contexto').Perm (pcb.stackPointer :: marco config contexto))
      (hroom : pcb.stackPointer + 4 ≤ config.stackSize * config.tamanioPagina)
      (hstack' : pcb'.stack = below ++ [contexto'])
      (hpointer : pcb'.stackPointer = pcb.stackPointer + tamanioVariable)
  | llamada (contexto : Stack) (hmarco : marco config contexto = [])
      (hstack : pcb'.stack = pcb.stack ++ [contexto])
      (hpointer : pcb'.stackPointer = pcb.stackPointer)
  | vuelta (contexto : Stack) (hstack : pcb.stack = pcb'.stack ++ [contexto])
      (hpointer : pcb'.stackPointer = pcb.stackPointer - tamanioVariable * vivas contexto)

theorem finalizar_movimiento (config : Config) (r : Residue) (s s' : State) (sent : List Packet)
    (h : finalizar r s = some (s', sent)) : Movimiento config s.pcbActual s'.pcbActual := by
  rcases finalizar_stack r s s' sent h with ⟨hnil, hnil', hpointer⟩ | ⟨contexto, hstack, hpointer⟩
  · exact .ninguno (hnil'.trans hnil.symm) hpointer
  · exact .vuelta contexto hstack hpointer

theorem definirVariable_movimiento (config : Config) (r : Residue) (s : State)
    (identificador : Int) :
    Movimiento config s.pcbActual (definirVariable config r s identificador).1.pcbActual := by
  by_cases hroom : s.pcbActual.stackPointer + 4 ≤ config.stackSize * config.tamanioPagina
  · rcases definirVariable_room config r s identificador hroom with
      ⟨below, contexto, contexto', hstack, hmarco, _, hd⟩
    rw [hd]
    exact .nueva below contexto contexto' hstack hmarco hroom rfl rfl
  · rw [definirVariable_over config r s identificador (by omega)]
    exact .ninguno rfl rfl

theorem primitiva_cases (config : Config) (s s' : State × Memoria.ServerState)
    (primitiva : Primitiva) (h : primitiva.step config s = some s') :
    Movimiento config s.1.pcbActual s'.1.pcbActual := by
  unfold Primitiva.step at h
  by_cases hfin : s.1.finPrograma = true
  · rw [if_pos hfin] at h
    exact absurd h (by simp only [reduceCtorEq, not_false_eq_true])
  rw [if_neg hfin] at h
  cases primitiva with
  | definirVariable r identificador =>
      obtain rfl := Option.some.inj h
      exact definirVariable_movimiento config r s.1 identificador
  | llamarSinRetorno etiqueta =>
      obtain rfl := Option.some.inj h
      rcases irAlLabel_stack config { s.1.pcbActual with
        stack := s.1.pcbActual.stack ++ [{ tStackCreate with retPos := s.1.pcbActual.PC }] }
        etiqueta with ⟨hstack, hpointer⟩
      -- The frame of a call has neither arguments nor variables yet.
      exact .llamada _ rfl hstack hpointer
  | llamarConRetorno etiqueta dondeRetornar =>
      obtain rfl := Option.some.inj h
      rcases irAlLabel_stack config { s.1.pcbActual with
        stack := s.1.pcbActual.stack ++ [{ tStackCreate with
          retVar :=
            { page := toInt (dondeRetornar.tdiv config.tamanioPagina)
              offset := toInt (dondeRetornar.tmod config.tamanioPagina)
              size := tamanioVariable }
          retPos := s.1.pcbActual.PC }] } etiqueta with ⟨hstack, hpointer⟩
      exact .llamada _ rfl hstack hpointer
  | retornar r retorno =>
      rcases Option.map_eq_some_iff.mp h with ⟨⟨f, mem', sent⟩, hret, rfl⟩
      rcases retornar_finalizar config r s.1 f s.2 mem' retorno sent hret with ⟨_, conn, hfin⟩
      exact finalizar_movimiento config r { s.1 with conn := conn } f sent hfin
  | finalizar r =>
      rcases Option.map_eq_some_iff.mp h with ⟨⟨f, sent⟩, hfin, rfl⟩
      exact finalizar_movimiento config r s.1 f sent hfin

/-! ### The invariant -/

/-- Every call keeps the contexts stacked. -/
theorem apilada_step (config : Config) (pcb pcb' : Pcb) (h : Movimiento config pcb pcb')
    (ha : Apilada config pcb) : Apilada config pcb' := by
  unfold Apilada at ha ⊢
  cases h with
  | ninguno hstack hpointer =>
      rw [hstack, hpointer]
      exact ha
  | nueva below contexto contexto' hstack hmarco hroom hstack' hpointer =>
      have hopen : Stacked tamanioVariable 0
          (below.map (marco config) ++ [marco config contexto]) pcb.stackPointer := by
        rcases hstack with hlast | ⟨hnil, rfl, rfl⟩
        · rw [hlast, List.map_append, List.map_singleton] at ha
          exact ha
        · -- The first context of a process is opened for its first variable.
          rw [hnil] at ha
          exact stacked_call _ _ _ _ ha
      rw [hstack', hpointer, List.map_append, List.map_singleton]
      exact stacked_push _ _ _ _ _ _ hopen hmarco
  | llamada contexto hmarco hstack hpointer =>
      rw [hstack, hpointer, List.map_append, List.map_singleton, hmarco]
      exact stacked_call _ _ _ _ ha
  | vuelta contexto hstack hpointer =>
      rw [hstack, List.map_append, List.map_singleton] at ha
      -- The pointer goes back by the cells of the frame that is taken off.
      have hreturn := stacked_return _ _ _ _ _ ha
      rw [marco_length] at hreturn
      rw [hpointer]
      exact hreturn

/-- Only a new variable raises `stackPointer`, and it asks for room. -/
theorem stackPointer_step (config : Config) (pcb pcb' : Pcb) (h : Movimiento config pcb pcb')
    (hle : pcb.stackPointer ≤ config.stackSize * config.tamanioPagina) :
    pcb'.stackPointer ≤ config.stackSize * config.tamanioPagina := by
  cases h with
  | ninguno hstack hpointer => rwa [hpointer]
  | nueva below contexto contexto' hstack hmarco hroom hstack' hpointer =>
      rw [hpointer]
      exact hroom
  | llamada contexto hmarco hstack hpointer => rwa [hpointer]
  | vuelta contexto hstack hpointer =>
      rw [hpointer, tamanioVariable]
      omega

/-- The positions of all the arguments and variables of a process. -/
def posiciones (config : Config) (pcb : Pcb) : List Int :=
  (pcb.stack.map (marco config)).flatten

/-- How many arguments and variables a process has. -/
def totalVivas (pcb : Pcb) : Nat := (pcb.stack.map vivas).sum

theorem posiciones_length (config : Config) (pcb : Pcb) :
    (posiciones config pcb).length = totalVivas pcb := by
  rw [posiciones, List.length_flatten, List.map_map, totalVivas]
  congr 2
  funext contexto
  exact marco_length config contexto

/-- `stackPointer` counts the arguments and variables. -/
theorem apilada_pointer (config : Config) (pcb : Pcb) (h : Apilada config pcb) :
    pcb.stackPointer = 4 * (totalVivas pcb : Int) := by
  have hflat := (stacked_flatten _ _ _ _ h).2
  rw [← posiciones_length config, hflat, posiciones, tamanioVariable, Int.zero_add]

/-- A process that begins with an empty stack. -/
theorem run_apilada (config : Config) (s₀ s : State × Memoria.ServerState)
    (primitivas : List Primitiva) (hpage : 0 < config.tamanioPagina) (hsize : 0 ≤ config.stackSize)
    (hstack : s₀.1.pcbActual.stack = []) (hpointer : s₀.1.pcbActual.stackPointer = 0)
    (hrun : run (Primitiva.step config) s₀ primitivas = some s) :
    Apilada config s.1.pcbActual ∧
      s.1.pcbActual.stackPointer ≤ config.stackSize * config.tamanioPagina := by
  refine run_invariant (Primitiva.step config)
    (fun s => Apilada config s.1.pcbActual ∧
      s.1.pcbActual.stackPointer ≤ config.stackSize * config.tamanioPagina)
    (fun s p u hs hstep => ?_) s₀ s primitivas ⟨?_, ?_⟩ hrun
  · have hcases := primitiva_cases config s u p hstep
    exact ⟨apilada_step config _ _ hcases hs.1, stackPointer_step config _ _ hcases hs.2⟩
  · rw [Apilada, hstack, hpointer]
    rfl
  · rw [hpointer]
    exact Int.mul_nonneg hsize (Int.le_of_lt hpage)

/-- After any calls `stackPointer` is four times the number of arguments and variables and
    within the limit, and their positions are the multiples of four below it, each of them
    once. A variable that is refused leaves the control block as it is. -/
theorem stack_discipline (config : Config) (s₀ s : State × Memoria.ServerState)
    (primitivas : List Primitiva) (hpage : 0 < config.tamanioPagina) (hsize : 0 ≤ config.stackSize)
    (hstack : s₀.1.pcbActual.stack = []) (hpointer : s₀.1.pcbActual.stackPointer = 0)
    (hrun : run (Primitiva.step config) s₀ primitivas = some s) :
    s.1.pcbActual.stackPointer = 4 * (totalVivas s.1.pcbActual : Int) ∧
    0 ≤ s.1.pcbActual.stackPointer ∧
    s.1.pcbActual.stackPointer ≤ config.stackSize * config.tamanioPagina ∧
    (posiciones config s.1.pcbActual).Perm (block 4 0 (totalVivas s.1.pcbActual)) ∧
    (posiciones config s.1.pcbActual).Nodup ∧
    (∀ r identificador,
      (definirVariable config r { s.1 with huboStackOver := false } identificador).1.huboStackOver
        = true →
      (definirVariable config r s.1 identificador).1.pcbActual = s.1.pcbActual) := by
  rcases run_apilada config s₀ s primitivas hpage hsize hstack hpointer hrun with ⟨ha, hle⟩
  have hpos := apilada_pointer config _ ha
  -- All the contexts together are one block, from zero on.
  have hperm : (posiciones config s.1.pcbActual).Perm
      (block 4 0 (totalVivas s.1.pcbActual)) := by
    rw [← posiciones_length config]
    exact (stacked_flatten _ _ _ _ ha).1
  refine ⟨hpos, by omega, hle, hperm, ?_, fun r identificador hover => ?_⟩
  · exact hperm.nodup_iff.mpr (block_nodup 4 0 _ (by decide))
  · by_cases hroom : s.1.pcbActual.stackPointer + 4 ≤ config.stackSize * config.tamanioPagina
    · -- With room the flag is not set.
      rcases definirVariable_room config r { s.1 with huboStackOver := false } identificador hroom
        with ⟨_, _, _, _, _, _, hd⟩
      rw [hd] at hover
      exact Bool.noConfusion hover
    · rw [definirVariable_over config r s.1 identificador (by omega)]

/-- Two pages of stack, and a parser that has nothing to say. -/
def callConfig : Config :=
  { stackSize := 2
    tamanioPagina := 4
    parser :=
      { lineSize := 64
        metadataDesdeLiteral := fun _ =>
          { instruccionInicio := 0
            instruccionesSize := 1
            instruccionesSerializado := [{ start := 0, offset := 4 }]
            etiquetasSize := 0
            etiquetas := fun _ => 0
            cantidadDeFunciones := 0
            cantidadDeEtiquetas := 0 }
        metadataBuscarEtiqueta := fun _ _ _ => -1
        analizadorLinea := fun _ => .fin }
    puntero := id }

def callResidue : Residue :=
  { server := fun _ => 0, serverData := fun _ => 0, reply := fun _ => 0, buffer := fun _ => 0
    id := 0 }

/-- A process with one function, `f`, on a CPU, and a memory of two frames. -/
def callStart : State × Memoria.ServerState :=
  ({ State.init { header := protocolHeader .CPU .OP_HANDSHAKE, buffer := fun _ => 0 } with
      pcbActual :=
        { idProcess := 1, PC := 0, quantum := 0, status := 0, pagesCode := 0,
          indexCode := [{ start := 0, offset := 4 }], instructions := 1,
          indexTag := [{ name := [102], PC := 4 }], tags := 1, stack := [], stackPointer := 0,
          exitCode := 0 } },
    { marcoSize := 4, pageTable := Memoria.getPageTable 2, main := fun _ => 0 })

/-- A variable, a call with an argument, a variable too many, and the return. -/
theorem stack_discipline_call : ∃ s, run (Primitiva.step callConfig) callStart
    [.definirVariable callResidue 97, .llamarSinRetorno [102], .definirVariable callResidue 48,
      .definirVariable callResidue 98, .finalizar callResidue] = some s ∧
    s.1.pcbActual.stackPointer = 4 * (totalVivas s.1.pcbActual : Int) :=
  ⟨_, rfl, (stack_discipline callConfig callStart _
    [.definirVariable callResidue 97, .llamarSinRetorno [102], .definirVariable callResidue 48,
      .definirVariable callResidue 98, .finalizar callResidue]
    (by decide) (by decide) rfl rfl rfl).1⟩

end Cpu

end Esther
