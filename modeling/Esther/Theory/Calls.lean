import Esther.Theory.Contexts
import Esther.Theory.Cpu

/-!
# Calls and Returns

Whether a function that returns leaves its caller as it was.

A process is followed from its fresh control block, burst by burst, and beside it the
calls that are open: what the stack, `stackPointer` and `PC` were when each was made.
Between two bursts the process may go to another CPU, which begins with the same three.

`finalizar` goes back to the context below, and takes the process for ended when there is
none. A call opens a context whatever is below it, but the main body of a program only has
one if it defines a variable. When it has none, the return of the first function it calls
ends the program. The other way a return goes wrong is a call with an unknown label, which
jumps nowhere and leaves its context behind. `OP_CPU_PROGRAM_END` is also what a CPU sends
when the quantum is used up.

## Main definitions

* `Llamada`, `Ejecucion`: An open call, and a process with its open calls.
* `Suceso`, `Ejecucion.step`: A step of the CPU, or the beginning of another burst.
* `Equilibrado`: A step that returns restores the caller, and a step that ends the process
  is the return of the main body.
* `Regular`: The steps of which this is true.
* `Cadena`: Each open call was made from the contexts below its own.

## Theorems

* `stepLinea_quiet`: The calls that are about something else.
* `stepLinea_ends`: What a return does.
* `cadena_step`: Every step keeps the calls and the contexts together.
* `equilibrado_iff_regular`: One step.
* `empty_main_ends`: A function called from a main body without variables.
* `calls_balanced_iff`: Runs.
* `failed_call_iff`: Labels that are not found.
-/

namespace Esther

/-- The next call is one of the two that call a function of the program. -/
def Linea.callsFunction : Linea → Bool
  | .llamarConRetorno _ _ _ => true
  | .llamarSinRetorno _ _ => true
  | _ => false

/-- The label the next call looks up. -/
def Linea.etiqueta : Linea → Option (List UInt8)
  | .irAlLabel etiqueta _ => some etiqueta
  | .llamarConRetorno etiqueta _ _ => some etiqueta
  | .llamarSinRetorno etiqueta _ => some etiqueta
  | _ => none

/-- The next call defines a variable. -/
def Linea.defines : Linea → Bool
  | .definirVariable _ _ => true
  | _ => false

namespace Cpu

open Transition

/-- An open call: the stack, `stackPointer` and `PC` it was made from, and whether its
    label was found. -/
structure Llamada where
  stack : List Stack
  stackPointer : Int
  PC : Int
  conocida : Bool
deriving DecidableEq

/-- A process on a CPU, with its open calls, the last one first. -/
structure Ejecucion where
  cpu : State
  llamadas : List Llamada
  terminado : Bool

/-- A step of the CPU the process is on, or the process beginning a burst on some CPU. The
    memory server and what the kernel has sent are as the others have left them. -/
inductive Suceso
  | paso (r : Residue) (mem : Memoria.ServerState) (inbox : List Packet)
  | reanudar (cpu : State)

/-- The call that the next step makes. -/
def State.llamada (config : Config) (s : State) : Option Llamada :=
  let llamada := fun etiqueta : List UInt8 =>
    { stack := s.pcbActual.stack
      stackPointer := s.pcbActual.stackPointer
      PC := s.pcbActual.PC
      conocida := busquedaEtiqueta config s.pcbActual etiqueta ≠ config.puntero (-1) : Llamada }
  match s.control with
  | .linea _ (.llamarConRetorno etiqueta _ _) => some (llamada etiqueta)
  | .linea _ (.llamarSinRetorno etiqueta _) => some (llamada etiqueta)
  | _ => none

/-- The next step returns from a function or from the main body. -/
def State.regresa (s : State) : Bool :=
  match s.control with
  | .linea _ linea => linea.ends
  | _ => false

/-- The process is between two bursts. -/
def State.enEspera (s : State) : Bool :=
  match s.control with
  | .espera => true
  | _ => false

/-- The calls that are open after a step. -/
def Ejecucion.siguen (config : Config) (e : Ejecucion) : List Llamada :=
  match e.cpu.llamada config with
  | some llamada => llamada :: e.llamadas
  | none => if e.cpu.regresa then e.llamadas.tail else e.llamadas

/-- A process that has ended takes no more steps. One that is between two bursts begins
    the next with the stack, `stackPointer` and `PC` it had. -/
def Ejecucion.step (config : Config) (e : Ejecucion) : Suceso → Option Ejecucion
  | .paso r mem inbox =>
      if e.terminado || e.cpu.enEspera then none
      else (Cpu.step config r e.cpu mem inbox).map fun res =>
        { cpu := res.state
          llamadas := e.siguen config
          terminado := e.cpu.regresa && e.llamadas.isEmpty }
  | .reanudar cpu =>
      if e.terminado || !e.cpu.enEspera then none
      else if cpu.pcbActual.stack = e.cpu.pcbActual.stack ∧
          cpu.pcbActual.stackPointer = e.cpu.pcbActual.stackPointer ∧
          cpu.pcbActual.PC = e.cpu.pcbActual.PC then some { e with cpu := cpu }
      else none

/-- The function that is executing: the last call that is open and jumped. -/
def Ejecucion.abierta (e : Ejecucion) : Option Llamada := e.llamadas.find? fun ll => ll.conocida

/-- A step marks the process as ended, by the flag or by the message. -/
def Termina (s : State) (res : Result) : Prop :=
  (res.state.finPrograma = true ∧ s.finPrograma = false) ∨
    ∃ packet ∈ res.sent, packet.header.opcode = .OP_CPU_PROGRAM_END

/-- A return from a function restores its caller and does not mark the process as ended, and
    a step that does is the return from the main body. -/
def Equilibrado (config : Config) (e : Ejecucion) : Suceso → Prop
  | .paso r mem inbox => ∀ res, Cpu.step config r e.cpu mem inbox = some res →
      (e.cpu.regresa = true → ∀ ll, e.abierta = some ll →
        res.state.pcbActual.stack = ll.stack ∧
        res.state.pcbActual.stackPointer = ll.stackPointer ∧
        res.state.pcbActual.PC = ll.PC ∧ res.state.finPrograma = e.cpu.finPrograma) ∧
      (Termina e.cpu res → e.cpu.regresa = true ∧ e.abierta = none)
  | .reanudar _ => True

/-- A return is from a function that was called with a context below it and that has made no
    call of an unknown label, and the quantum is not used up. -/
def Regular (e : Ejecucion) : Suceso → Prop
  | .paso _ _ _ =>
      (e.cpu.regresa = true → ∀ ll, e.abierta = some ll →
        e.llamadas.head? = some ll ∧ ll.stack ≠ []) ∧
      ∀ i, e.cpu.control = .bucle i →
        seguirEjecutando e.cpu.pcbActual i = true ∨ e.cpu.procesoBloqueado = true
  | .reanudar _ => True

/-! ### What a step does -/

/-- A call that is about something else leaves the stack alone and does not mark the process
    as ended. -/
theorem stepLinea_quiet (config : Config) (r : Residue) (s : State) (mem : Memoria.ServerState)
    (inbox : List Packet) (i : Int) (linea : Linea) (res : Result)
    (hcalls : linea.callsFunction = false) (hends : linea.ends = false)
    (hdefines : linea.defines = false)
    (h : stepLinea config r s mem inbox i linea = some res) :
    res.state.pcbActual.stack = s.pcbActual.stack ∧
      res.state.pcbActual.stackPointer = s.pcbActual.stackPointer ∧ ¬ Termina s res := by
  have hsilent : ∀ res : Result, res.sent = [] →
      (res.state.finPrograma = true → s.finPrograma = true) → ¬ Termina s res := by
    rintro res hsent hfin (⟨hset, hclear⟩ | ⟨packet, hmem, _⟩)
    · rw [hfin hset] at hclear
      exact Bool.noConfusion hclear
    · rw [hsent] at hmem
      exact absurd hmem List.not_mem_nil
  -- The kernel's functions send the control block under an opcode of their own.
  have hother : ∀ (opcode : Opcode) (res : Result), opcode ≠ .OP_CPU_PROGRAM_END →
      (∀ packet ∈ res.sent, packet.header.opcode = opcode) →
      res.state.finPrograma = s.finPrograma → ¬ Termina s res := by
    rintro opcode res hne hsent hfin (⟨hset, hclear⟩ | ⟨packet, hmem, hop⟩)
    · rw [hfin, hclear] at hset
      exact Bool.noConfusion hset
    · exact hne ((hsent packet hmem).symm.trans hop)
  have htwo : ∀ (opcode : Opcode) (letra : UInt8) (nombre : List UInt8) (sent : List Packet),
      syscallPackets r s.pcbActual opcode letra nombre = some sent →
      ∀ packet ∈ sent, packet.header.opcode = opcode := by
    intro opcode letra nombre sent hsent packet hmem
    rcases syscallPackets_eq r _ opcode letra nombre sent hsent with ⟨first, rfl, hop⟩
    rcases List.mem_cons.mp hmem with rfl | hmem
    · exact hop
    · rw [List.mem_singleton.mp hmem]
      exact hop
  cases linea with
  | fin =>
      have hver := verificarTerminarEjecucion_cases s
      simp only [stepLinea] at h
      split at h
      · rw [Option.some.injEq] at h
        subst h
        refine ⟨congrArg Pcb.stack hver.1, congrArg Pcb.stackPointer hver.1, hsilent _ rfl ?_⟩
        simp only [verificarTerminarEjecucion]
        split
        · exact id
        · split
          · rintro hc
            exact Bool.noConfusion hc
          · exact id
      · rename_i hgo
        rw [Option.some.injEq] at h
        subst h
        rcases hver.2 with hstop | ⟨hsame, _⟩
        · exact absurd hstop hgo
        · rw [hsame]
          exact ⟨rfl, rfl, hsilent _ rfl id⟩
  | definirVariable _ _ => exact Bool.noConfusion hdefines
  | obtenerPosicionVariable _ _ =>
      rw [stepLinea, Option.map_eq_some_iff] at h
      rcases h with ⟨_, -, rfl⟩
      exact ⟨rfl, rfl, hsilent _ rfl id⟩
  | dereferenciar direccion _ =>
      rw [stepLinea, Option.map_eq_some_iff] at h
      rcases h with ⟨⟨s', mem', valor⟩, hd, rfl⟩
      have hkeeps := dereferenciar_keeps config r s s' mem mem' direccion valor hd
      refine ⟨congrArg Pcb.stack hkeeps.1, congrArg Pcb.stackPointer hkeeps.1,
        hsilent _ rfl fun hset => ?_⟩
      exact hkeeps.2 ▸ hset
  | asignar _ _ _ =>
      obtain rfl := Option.some.inj h
      exact ⟨rfl, rfl, hsilent _ rfl id⟩
  | irAlLabel etiqueta _ =>
      obtain rfl := Option.some.inj h
      rcases irAlLabel_stack config s.pcbActual etiqueta with ⟨hstack, hpointer⟩
      exact ⟨hstack, hpointer, hsilent _ rfl id⟩
  | llamarConRetorno _ _ _ => exact Bool.noConfusion hcalls
  | llamarSinRetorno _ _ => exact Bool.noConfusion hcalls
  | retornar _ _ => exact Bool.noConfusion hends
  | finalizar _ => exact Bool.noConfusion hends
  | obtenerValorCompartida nombre _ =>
      rw [stepLinea, Option.map_eq_some_iff] at h
      rcases h with ⟨sent, hsent, rfl⟩
      exact ⟨rfl, rfl, hother .OP_CPU_SHARED_VAR _ (by decide) (htwo _ _ _ _ hsent) rfl⟩
  | asignarValorCompartida nombre valor _ =>
      rw [stepLinea, Option.map_eq_some_iff] at h
      rcases h with ⟨sent, hsent, rfl⟩
      rw [asignarValorCompartida, Option.map_eq_some_iff] at hsent
      rcases hsent with ⟨sent, hsent, rfl⟩
      refine ⟨rfl, rfl, hother .OP_CPU_SHARED_VAR _ (by decide) (fun packet hmem => ?_) rfl⟩
      rcases List.mem_append.mp hmem with hmem | hmem
      · exact htwo _ _ _ _ hsent packet hmem
      · rw [List.mem_singleton.mp hmem]
        rfl
  | signal identificador _ =>
      rw [stepLinea, Option.map_eq_some_iff] at h
      rcases h with ⟨sent, hsent, rfl⟩
      exact ⟨rfl, rfl, hother .OP_CPU_SEMAPHORE _ (by decide) (htwo _ _ _ _ hsent) rfl⟩
  | wait identificador _ =>
      rw [stepLinea, Option.map_eq_some_iff] at h
      rcases h with ⟨sent, hsent, rfl⟩
      exact ⟨rfl, rfl, hother .OP_CPU_SEMAPHORE _ (by decide) (htwo _ _ _ _ hsent) rfl⟩

/-- Returning to a context below. -/
theorem finalizar_returns (r : Residue) (s s' : State) (sent : List Packet) (below : List Stack)
    (contexto : Stack) (hstack : s.pcbActual.stack = below ++ [contexto]) (hbelow : below ≠ [])
    (h : finalizar r s = some (s', sent)) :
    sent = [] ∧ s'.finPrograma = s.finPrograma ∧ s'.pcbActual.PC = contexto.retPos := by
  simp only [finalizar, hstack, List.getLast?_append, List.getLast?_singleton, Option.some_or,
    List.dropLast_concat] at h
  cases below with
  | nil => exact absurd rfl hbelow
  | cons c below =>
      simp only [Option.some.injEq, Prod.mk.injEq] at h
      rcases h with ⟨rfl, rfl⟩
      exact ⟨rfl, rfl, rfl⟩

/-- Returning with no context below ends the process. -/
theorem finalizar_ends (r : Residue) (s s' : State) (sent : List Packet)
    (hstack : s.pcbActual.stack.length ≤ 1) (h : finalizar r s = some (s', sent)) :
    ∃ packet ∈ sent, packet.header.opcode = .OP_CPU_PROGRAM_END := by
  have hdrop : s.pcbActual.stack.dropLast = [] :=
    List.eq_nil_of_length_eq_zero (by rw [List.length_dropLast]; omega)
  simp only [finalizar, hdrop, Option.map_eq_some_iff, Prod.mk.injEq] at h
  rcases h with ⟨sent', hsent, _, rfl⟩
  rcases finalizarPor_handsBack r _ _ hsent with ⟨packet, rfl, hback⟩
  exact ⟨packet, List.mem_singleton_self packet, hback.1⟩

/-- A return inside a line is `finalizar`, up to the connection to the memory server. -/
theorem stepLinea_ends (config : Config) (r : Residue) (s : State) (mem : Memoria.ServerState)
    (inbox : List Packet) (i : Int) (linea : Linea) (res : Result) (hends : linea.ends = true)
    (h : stepLinea config r s mem inbox i linea = some res) :
    ∃ conn s', finalizar r { s with conn := conn } = some (s', res.sent) ∧
      res.state.pcbActual = s'.pcbActual ∧ res.state.finPrograma = s'.finPrograma := by
  cases linea with
  | retornar retorno sigue =>
      rw [stepLinea, Option.map_eq_some_iff] at h
      rcases h with ⟨⟨s', mem', sent⟩, hret, rfl⟩
      rcases retornar_finalizar config r s s' mem mem' retorno sent hret with ⟨_, conn, hfin⟩
      exact ⟨conn, s', hfin, rfl, rfl⟩
  | finalizar sigue =>
      rw [stepLinea, Option.map_eq_some_iff] at h
      rcases h with ⟨⟨s', sent⟩, hfin, rfl⟩
      exact ⟨s.conn, s', hfin, rfl, rfl⟩
  | _ => exact Bool.noConfusion hends

/-! ### Open calls and contexts -/

/-- The last context is that of the last call, which was made with the contexts below it,
    and they in turn are those of the calls before. The main body has a context at most. -/
def Cadena : List Llamada → List Stack → Int → Prop
  | [], stack, _ => stack.length ≤ 1
  | ll :: llamadas, stack, stackPointer =>
      ∃ contexto, stack = ll.stack ++ [contexto] ∧ contexto.retPos = ll.PC ∧
        stackPointer = ll.stackPointer + tamanioVariable * vivas contexto ∧
        Cadena llamadas ll.stack ll.stackPointer

/-- An open call was made with fewer contexts than there are. -/
theorem cadena_length (llamadas : List Llamada) (stack : List Stack) (stackPointer : Int)
    (h : Cadena llamadas stack stackPointer) (ll : Llamada) (hmem : ll ∈ llamadas) :
    ll.stack.length < stack.length := by
  induction llamadas generalizing stack stackPointer with
  | nil => exact absurd hmem List.not_mem_nil
  | cons first llamadas ih =>
      rcases h with ⟨contexto, rfl, _, _, hrest⟩
      rw [List.length_append, List.length_singleton]
      rcases List.mem_cons.mp hmem with rfl | hlater
      · exact Nat.lt_succ_self _
      · exact Nat.lt_succ_of_lt (ih _ _ hrest hlater)

/-- A variable is defined in the last context. -/
theorem cadena_define (config : Config) (llamadas : List Llamada) (pcb : Pcb)
    (below : List Stack) (contexto contexto' : Stack)
    (h : Cadena llamadas pcb.stack pcb.stackPointer)
    (hstack : pcb.stack = below ++ [contexto] ∨
      pcb.stack = [] ∧ below = [] ∧ contexto = tStackCreate)
    (hmarco : (marco config contexto').Perm (pcb.stackPointer :: marco config contexto))
    (hret : contexto'.retPos = contexto.retPos) :
    Cadena llamadas (below ++ [contexto']) (pcb.stackPointer + tamanioVariable) := by
  cases llamadas with
  | nil =>
      have hle : pcb.stack.length ≤ 1 := h
      show (below ++ [contexto']).length ≤ 1
      rcases hstack with hlast | ⟨_, rfl, _⟩
      · rw [hlast, List.length_append, List.length_singleton] at hle
        rw [List.length_append, List.length_singleton]
        exact hle
      · exact Nat.le_refl 1
  | cons ll llamadas =>
      rcases h with ⟨last, hsplit, hPC, hpointer, hrest⟩
      -- The last context is that of the open call, so a variable is one of the function's.
      have hsame : below = ll.stack ∧ contexto = last := by
        rcases hstack with hlast | ⟨hnil, _⟩
        · exact List.append_inj' (hlast.symm.trans hsplit) rfl |>.imp id List.singleton_inj.mp
        · rw [hnil] at hsplit
          exact absurd hsplit.symm (List.append_ne_nil_of_right_ne_nil _ (List.cons_ne_nil _ _))
      rcases hsame with ⟨rfl, rfl⟩
      have hcount : vivas contexto' = vivas contexto + 1 := by
        rw [← marco_length config, ← marco_length config, hmarco.length_eq, List.length_cons]
      refine ⟨contexto', rfl, hret.trans hPC, ?_, hrest⟩
      rw [hpointer, hcount, Nat.cast_add, Nat.cast_one, tamanioVariable]
      omega

/-- The context of the last call is taken away with what it had. -/
theorem cadena_return (r : Residue) (s s' : State) (sent : List Packet) (llamadas : List Llamada)
    (h : Cadena llamadas s.pcbActual.stack s.pcbActual.stackPointer)
    (hfin : finalizar r s = some (s', sent)) :
    Cadena llamadas.tail s'.pcbActual.stack s'.pcbActual.stackPointer ∧
      ∀ ll, llamadas.head? = some ll → s'.pcbActual.stack = ll.stack ∧
        s'.pcbActual.stackPointer = ll.stackPointer := by
  cases llamadas with
  | nil =>
      have hle : s.pcbActual.stack.length ≤ 1 := h
      refine ⟨?_, fun ll hll => absurd hll (by simp only [List.head?_nil, reduceCtorEq,
        not_false_eq_true])⟩
      -- No call is open, and a return takes at most one context off.
      show s'.pcbActual.stack.length ≤ 1
      rcases finalizar_stack r s s' sent hfin with ⟨_, hnil', _⟩ | ⟨contexto, hstack, _⟩
      · rw [hnil']
        exact Nat.zero_le 1
      · rw [hstack, List.length_append, List.length_singleton] at hle
        omega
  | cons first llamadas =>
      rcases h with ⟨last, hsplit, _, hpointer, hrest⟩
      rcases finalizar_stack r s s' sent hfin with ⟨hnil, _⟩ | ⟨contexto, hstack, hpointer'⟩
      · rw [hnil] at hsplit
        exact absurd hsplit.symm (List.append_ne_nil_of_right_ne_nil _ (List.cons_ne_nil _ _))
      · -- The context that is taken off is the one of the last call.
        have hsame : s'.pcbActual.stack = first.stack ∧ contexto = last :=
          List.append_inj' (hstack.symm.trans hsplit) rfl |>.imp id List.singleton_inj.mp
        rcases hsame with ⟨hs, rfl⟩
        have hp : s'.pcbActual.stackPointer = first.stackPointer := by
          rw [hpointer', hpointer, Int.add_sub_cancel]
        refine ⟨?_, fun ll hll => ?_⟩
        · rw [List.tail_cons, hs, hp]
          exact hrest
        · obtain rfl : first = ll := Option.some.inj hll
          exact ⟨hs, hp⟩

/-- The context of a call is the last one, and `PC` is kept in it. -/
theorem stepLinea_calls (config : Config) (r : Residue) (s : State) (mem : Memoria.ServerState)
    (inbox : List Packet) (i : Int) (linea : Linea) (res : Result)
    (hcalls : linea.callsFunction = true) (hcontrol : s.control = .linea i linea)
    (h : stepLinea config r s mem inbox i linea = some res) :
    ¬ Termina s res ∧ ∃ ll contexto, s.llamada config = some ll ∧
      ll.stack = s.pcbActual.stack ∧ ll.stackPointer = s.pcbActual.stackPointer ∧
      ll.PC = s.pcbActual.PC ∧
      res.state.pcbActual.stack = s.pcbActual.stack ++ [contexto] ∧
      res.state.pcbActual.stackPointer = s.pcbActual.stackPointer ∧
      contexto.retPos = s.pcbActual.PC ∧ vivas contexto = 0 := by
  -- A call sends nothing and leaves the flag of the end alone.
  have hsilent : ∀ res : Result, res.sent = [] → res.state.finPrograma = s.finPrograma →
      ¬ Termina s res := by
    rintro res hsent hfin (⟨hset, hclear⟩ | ⟨packet, hmem, _⟩)
    · rw [hfin, hclear] at hset
      exact Bool.noConfusion hset
    · rw [hsent] at hmem
      exact absurd hmem List.not_mem_nil
  cases linea with
  | llamarConRetorno etiqueta dondeRetornar sigue =>
      obtain rfl := Option.some.inj h
      refine ⟨hsilent _ rfl rfl, _, _, by rw [State.llamada, hcontrol], rfl, rfl, rfl,
        (irAlLabel_stack config _ etiqueta).1, (irAlLabel_stack config _ etiqueta).2, rfl, rfl⟩
  | llamarSinRetorno etiqueta sigue =>
      obtain rfl := Option.some.inj h
      refine ⟨hsilent _ rfl rfl, _, _, by rw [State.llamada, hcontrol], rfl, rfl, rfl,
        (irAlLabel_stack config _ etiqueta).1, (irAlLabel_stack config _ etiqueta).2, rfl, rfl⟩
  | _ => exact Bool.noConfusion hcalls

/-- The open calls and the contexts of a process belong together. -/
def Ejecucion.Encadenada (e : Ejecucion) : Prop :=
  Cadena e.llamadas e.cpu.pcbActual.stack e.cpu.pcbActual.stackPointer

/-- What a step of the CPU does to a process: nothing to its calls, a call, the end of the
    quantum, or a return. -/
theorem paso_cases (config : Config) (e : Ejecucion) (r : Residue) (mem : Memoria.ServerState)
    (inbox : List Packet) (res : Result) (hespera : e.cpu.enEspera = false)
    (hc : e.Encadenada) (h : Cpu.step config r e.cpu mem inbox = some res) :
    (e.cpu.regresa = false ∧
      Cadena (e.siguen config) res.state.pcbActual.stack res.state.pcbActual.stackPointer ∧
      ((¬ Termina e.cpu res ∧
          ∀ i, e.cpu.control = .bucle i → seguirEjecutando e.cpu.pcbActual i = true ∨
            e.cpu.procesoBloqueado = true) ∨
        Termina e.cpu res ∧ ∃ i, e.cpu.control = .bucle i ∧
          seguirEjecutando e.cpu.pcbActual i = false ∧ e.cpu.procesoBloqueado = false)) ∨
    (e.cpu.regresa = true ∧ e.siguen config = e.llamadas.tail ∧ (∀ i, e.cpu.control ≠ .bucle i) ∧
      ∃ conn s', finalizar r { e.cpu with conn := conn } = some (s', res.sent) ∧
        res.state.pcbActual = s'.pcbActual ∧ res.state.finPrograma = s'.finPrograma) := by
  unfold Ejecucion.Encadenada at hc
  -- A step that sends nothing and leaves the flag does not end the process.
  have hsilent : ∀ res : Result, res.sent = [] → res.state.finPrograma = e.cpu.finPrograma →
      ¬ Termina e.cpu res := by
    rintro res hsent hfin (⟨hset, hclear⟩ | ⟨packet, hmem, _⟩)
    · rw [hfin, hclear] at hset
      exact Bool.noConfusion hset
    · rw [hsent] at hmem
      exact absurd hmem List.not_mem_nil
  cases hcontrol : e.cpu.control with
  | espera =>
      rw [State.enEspera, hcontrol] at hespera
      exact Bool.noConfusion hespera
  | bucle i =>
      have hregresa : e.cpu.regresa = false := by rw [State.regresa, hcontrol]
      have hsiguen : e.siguen config = e.llamadas := by
        simp only [Ejecucion.siguen, State.llamada, hcontrol, hregresa, Bool.false_eq_true,
          if_false]
      refine .inl ⟨hregresa, ?_⟩
      rw [hsiguen]
      rcases (step_bucle_cases config r e.cpu mem inbox res i hcontrol h).2 with
        ⟨hseguir, hsent, conn, linea, hstate⟩ | ⟨hno, _, hstate, hback⟩
      · refine ⟨by rw [hstate]; exact hc, .inl ⟨hsilent _ hsent (by rw [hstate]), ?_⟩⟩
        rintro j ⟨rfl⟩
        exact .inl hseguir
      · refine ⟨by rw [hstate]; exact hc, ?_⟩
        simp only [step, hcontrol] at h
        rw [if_neg (by rw [hno]; exact Bool.false_ne_true)] at h
        by_cases hbloqueado : e.cpu.procesoBloqueado = true
        · rw [if_pos hbloqueado, Option.some.injEq] at h
          refine .inl ⟨hsilent _ (by rw [← h]) (by rw [hstate]), fun j _ => .inr hbloqueado⟩
        · rw [if_neg hbloqueado, Option.map_eq_some_iff] at h
          rcases h with ⟨sent, hsent, rfl⟩
          rcases finalizarPor_handsBack r _ _ hsent with ⟨packet, rfl, hpacket⟩
          exact .inr ⟨.inr ⟨packet, List.mem_singleton_self packet, hpacket.1⟩, i, rfl, hno,
            Bool.eq_false_iff.mpr hbloqueado⟩
  | compartida i sigue =>
      have hregresa : e.cpu.regresa = false := by rw [State.regresa, hcontrol]
      have hsiguen : e.siguen config = e.llamadas := by
        simp only [Ejecucion.siguen, State.llamada, hcontrol, hregresa, Bool.false_eq_true,
          if_false]
      rcases step_compartida_cases config r e.cpu mem inbox res i sigue hcontrol h with
        ⟨packet, rest, rfl, rfl⟩
      refine .inl ⟨hregresa, by rw [hsiguen]; exact hc, .inl ⟨hsilent _ rfl rfl, ?_⟩⟩
      intro j hj
      exact Control.noConfusion hj
  | linea i linea =>
      have hbucle : ∀ j, Control.linea i linea ≠ .bucle j := fun j hj => Control.noConfusion hj
      rw [step_linea config r e.cpu mem inbox i linea hcontrol] at h
      by_cases hcalls : linea.callsFunction = true
      · rcases stepLinea_calls config r e.cpu mem inbox i linea res hcalls hcontrol h with
          ⟨hgoes, ll, contexto, hllamada, hs, hp, hPC, hstack, hpointer, hret, hvivas⟩
        have hregresa : e.cpu.regresa = false := by
          rw [State.regresa, hcontrol]
          cases linea with
          | llamarConRetorno _ _ _ => rfl
          | llamarSinRetorno _ _ => rfl
          | _ => exact Bool.noConfusion hcalls
        refine .inl ⟨hregresa, ?_, .inl ⟨hgoes, fun j hj => absurd hj (hbucle j)⟩⟩
        have hsiguen : e.siguen config = ll :: e.llamadas := by
          simp only [Ejecucion.siguen, hllamada]
        rw [hsiguen, hstack, hpointer]
        refine ⟨contexto, by rw [hs], hret.trans hPC.symm, ?_, by rw [hs, hp]; exact hc⟩
        rw [hvivas, hp, Int.natCast_zero, Int.mul_zero, Int.add_zero]
      have hllamada : e.cpu.llamada config = none := by
        rw [State.llamada, hcontrol]
        cases linea with
        | llamarConRetorno _ _ _ => exact absurd rfl hcalls
        | llamarSinRetorno _ _ => exact absurd rfl hcalls
        | _ => rfl
      by_cases hends : linea.ends = true
      · have hregresa : e.cpu.regresa = true := by
          rw [State.regresa, hcontrol]
          exact hends
        refine .inr ⟨hregresa, ?_, hbucle, stepLinea_ends config r e.cpu mem inbox i linea res
          hends h⟩
        simp only [Ejecucion.siguen, hllamada, hregresa, if_true]
      have hregresa : e.cpu.regresa = false := by
        rw [State.regresa, hcontrol]
        exact Bool.eq_false_iff.mpr hends
      have hsiguen : e.siguen config = e.llamadas := by
        simp only [Ejecucion.siguen, hllamada, hregresa, Bool.false_eq_true, if_false]
      refine .inl ⟨hregresa, ?_⟩
      rw [hsiguen]
      by_cases hdefines : linea.defines = true
      · cases linea with
        | definirVariable identificador sigue =>
            obtain rfl := Option.some.inj h
            have hfin := (definirVariable_keeps config r e.cpu identificador).2
            refine ⟨?_, .inl ⟨hsilent _ rfl hfin, fun j hj => absurd hj (hbucle j)⟩⟩
            by_cases hroom : e.cpu.pcbActual.stackPointer + 4
                ≤ config.stackSize * config.tamanioPagina
            · rcases definirVariable_room config r e.cpu identificador hroom with
                ⟨below, contexto, contexto', hstack, hmarco, hret, hd⟩
              simp only [hd]
              exact cadena_define config _ _ below contexto contexto' hc hstack hmarco hret
            · simp only [definirVariable_over config r e.cpu identificador (by omega)]
              exact hc
        | _ => exact Bool.noConfusion hdefines
      · rcases stepLinea_quiet config r e.cpu mem inbox i linea res
          (Bool.eq_false_iff.mpr hcalls) (Bool.eq_false_iff.mpr hends)
          (Bool.eq_false_iff.mpr hdefines) h with ⟨hstack, hpointer, hgoes⟩
        rw [hstack, hpointer]
        exact ⟨hc, .inl ⟨hgoes, fun j hj => absurd hj (hbucle j)⟩⟩

/-- A step of a process is one of the CPU it is on. -/
theorem ejecucion_paso (config : Config) (e e' : Ejecucion) (r : Residue)
    (mem : Memoria.ServerState) (inbox : List Packet)
    (h : e.step config (.paso r mem inbox) = some e') :
    e.cpu.enEspera = false ∧ ∃ res, Cpu.step config r e.cpu mem inbox = some res ∧
      e' = { cpu := res.state
             llamadas := e.siguen config
             terminado := e.cpu.regresa && e.llamadas.isEmpty } := by
  rw [Ejecucion.step] at h
  by_cases hstop : (e.terminado || e.cpu.enEspera) = true
  · rw [if_pos hstop] at h
    exact absurd h (by simp only [reduceCtorEq, not_false_eq_true])
  rw [if_neg hstop, Option.map_eq_some_iff] at h
  rcases h with ⟨res, hres, rfl⟩
  rw [Bool.or_eq_true, not_or] at hstop
  exact ⟨Bool.eq_false_iff.mpr hstop.2, res, hres, rfl⟩

/-- Every step keeps the calls and the contexts together. -/
theorem cadena_step (config : Config) (e e' : Ejecucion) (suceso : Suceso) (hc : e.Encadenada)
    (h : e.step config suceso = some e') : e'.Encadenada := by
  cases suceso with
  | paso r mem inbox =>
      rcases ejecucion_paso config e e' r mem inbox h with ⟨hespera, res, hres, rfl⟩
      rcases paso_cases config e r mem inbox res hespera hc hres with
        ⟨_, hkeep, _⟩ | ⟨_, hsiguen, _, conn, s', hfin, hpcb, _⟩
      · exact hkeep
      · have hreturn := (cadena_return r { e.cpu with conn := conn } s' _ e.llamadas hc hfin).1
        unfold Ejecucion.Encadenada
        rw [hsiguen, hpcb]
        exact hreturn
  | reanudar cpu =>
      rw [Ejecucion.step] at h
      by_cases hstop : (e.terminado || !e.cpu.enEspera) = true
      · rw [if_pos hstop] at h
        exact absurd h (by simp only [reduceCtorEq, not_false_eq_true])
      rw [if_neg hstop] at h
      -- The process goes on with the control block that it had.
      by_cases hsame : cpu.pcbActual.stack = e.cpu.pcbActual.stack ∧
          cpu.pcbActual.stackPointer = e.cpu.pcbActual.stackPointer ∧
          cpu.pcbActual.PC = e.cpu.pcbActual.PC
      · rw [if_pos hsame, Option.some.injEq] at h
        subst h
        unfold Ejecucion.Encadenada at hc ⊢
        rw [hsame.1, hsame.2.1]
        exact hc
      · rw [if_neg hsame] at h
        exact absurd h (by simp only [reduceCtorEq, not_false_eq_true])

/-- A return restores the function that is executing and does not end the process exactly
    when that was called last and with a context below. -/
theorem return_iff (r : Residue) (s s' : State) (sent : List Packet) (llamadas : List Llamada)
    (ll : Llamada) (hc : Cadena llamadas s.pcbActual.stack s.pcbActual.stackPointer)
    (hmem : ll ∈ llamadas) (hfin : finalizar r s = some (s', sent)) :
    (s'.pcbActual.stack = ll.stack ∧ s'.pcbActual.stackPointer = ll.stackPointer ∧
        s'.pcbActual.PC = ll.PC ∧ s'.finPrograma = s.finPrograma ∧
        ∀ packet ∈ sent, packet.header.opcode ≠ .OP_CPU_PROGRAM_END) ↔
      llamadas.head? = some ll ∧ ll.stack ≠ [] := by
  cases llamadas with
  | nil => exact absurd hmem List.not_mem_nil
  | cons first llamadas =>
      rcases (cadena_return r s s' sent _ hc hfin).2 first rfl with ⟨hstack, hpointer⟩
      rcases hc with ⟨contexto, hsplit, hret, _, hrest⟩
      by_cases hfirst : first = ll
      · subst hfirst
        by_cases hempty : first.stack = []
        · -- The caller had no context, so the function ends the process.
          refine iff_of_false (fun h => ?_) fun h => h.2 hempty
          rcases finalizar_ends r s s' sent (by rw [hsplit, hempty]; exact Nat.le_refl 1) hfin with
            ⟨packet, hpacket, hop⟩
          exact h.2.2.2.2 packet hpacket hop
        · rcases finalizar_returns r s s' sent first.stack contexto hsplit hempty hfin with
            ⟨hsent, hkeep, hPC⟩
          refine iff_of_true ⟨hstack, hpointer, hPC.trans hret, hkeep, fun packet hpacket => ?_⟩
            ⟨rfl, hempty⟩
          rw [hsent] at hpacket
          exact absurd hpacket List.not_mem_nil
      · -- A context that a call of an unknown label has left is in the way.
        refine iff_of_false (fun h => ?_) fun h => hfirst (Option.some.inj h.1)
        have hlater : ll ∈ llamadas := (List.mem_cons.mp hmem).resolve_left
          fun hc => hfirst hc.symm
        have hlt := cadena_length llamadas _ _ hrest ll hlater
        rw [← hstack, h.1] at hlt
        exact Nat.lt_irrefl _ hlt

/-- What a step has to do, for the one thing it does. -/
theorem equilibrado_paso (config : Config) (e : Ejecucion) (r : Residue)
    (mem : Memoria.ServerState) (inbox : List Packet) (res : Result)
    (hres : Cpu.step config r e.cpu mem inbox = some res) :
    Equilibrado config e (.paso r mem inbox) ↔
      (e.cpu.regresa = true → ∀ ll, e.abierta = some ll →
        res.state.pcbActual.stack = ll.stack ∧
        res.state.pcbActual.stackPointer = ll.stackPointer ∧
        res.state.pcbActual.PC = ll.PC ∧ res.state.finPrograma = e.cpu.finPrograma) ∧
      (Termina e.cpu res → e.cpu.regresa = true ∧ e.abierta = none) := by
  simp only [Equilibrado, hres, Option.some.injEq, forall_eq']

/-- A step that returns does what it should exactly when it is regular. -/
theorem equilibrado_regresa_iff (config : Config) (e : Ejecucion) (r : Residue)
    (mem : Memoria.ServerState) (inbox : List Packet) (res : Result) (conn : Memoria.Connection)
    (s' : State) (hc : e.Encadenada) (hres : Cpu.step config r e.cpu mem inbox = some res)
    (hregresa : e.cpu.regresa = true) (hbucle : ∀ i, e.cpu.control ≠ .bucle i)
    (hfin : finalizar r { e.cpu with conn := conn } = some (s', res.sent))
    (hpcb : res.state.pcbActual = s'.pcbActual)
    (hflag : res.state.finPrograma = s'.finPrograma) :
    Equilibrado config e (.paso r mem inbox) ↔ Regular e (.paso r mem inbox) := by
  rw [equilibrado_paso config e r mem inbox res hres]
  cases habierta : e.abierta with
  | none =>
      -- The main body returns, and there is nobody to be restored.
      have hvoid : ∀ {P : Llamada → Prop} ll, none = some ll → P ll := fun ll hll =>
        absurd hll (by simp only [reduceCtorEq, not_false_eq_true])
      refine iff_of_true ⟨fun _ => hvoid, fun _ => ⟨hregresa, rfl⟩⟩
        ⟨fun _ ll hll => ?_, fun i hi => absurd hi (hbucle i)⟩
      exact absurd (habierta.symm.trans hll) (by simp only [reduceCtorEq, not_false_eq_true])
  | some ll =>
      have hiff := return_iff r { e.cpu with conn := conn } s' res.sent e.llamadas ll hc
        (List.mem_of_find?_eq_some habierta) hfin
      rw [← hpcb, ← hflag] at hiff
      constructor
      · rintro ⟨hback, hends⟩
        rcases hback hregresa ll rfl with ⟨hs, hp, hPC, hkeep⟩
        refine ⟨fun _ other hother => ?_, fun i hi => absurd hi (hbucle i)⟩
        obtain rfl : ll = other := Option.some.inj (habierta.symm.trans hother)
        refine hiff.mp ⟨hs, hp, hPC, hkeep, fun packet hpacket hop => ?_⟩
        exact absurd (hends (.inr ⟨packet, hpacket, hop⟩)).2
          (by simp only [reduceCtorEq, not_false_eq_true])
      · rintro ⟨hreg, _⟩
        rcases hiff.mpr (hreg hregresa ll habierta) with ⟨hs, hp, hPC, hkeep, hsent⟩
        refine ⟨fun _ other hother => ?_, ?_⟩
        · obtain rfl : ll = other := Option.some.inj hother
          exact ⟨hs, hp, hPC, hkeep⟩
        · rintro (⟨hset, hclear⟩ | ⟨packet, hpacket, hop⟩)
          · rw [hkeep] at hset
            exact Bool.noConfusion (hset.symm.trans hclear)
          · exact absurd hop (hsent packet hpacket)

/-- A step restores the caller and ends the process as it should exactly when it is
    regular. -/
theorem equilibrado_iff_regular (config : Config) (e e' : Ejecucion) (suceso : Suceso)
    (hc : e.Encadenada) (h : e.step config suceso = some e') :
    Equilibrado config e suceso ↔ Regular e suceso := by
  cases suceso with
  | reanudar cpu => exact Iff.rfl
  | paso r mem inbox =>
      rcases ejecucion_paso config e e' r mem inbox h with ⟨hespera, res, hres, rfl⟩
      rcases paso_cases config e r mem inbox res hespera hc hres with
        ⟨hregresa, _, ⟨hgoes, hbucle⟩ | ⟨hends, i, hcontrol, hno, hbloqueado⟩⟩ |
        ⟨hregresa, _, hbucle, conn, s', hfin, hpcb, hflag⟩
      · have hnot : ¬ e.cpu.regresa = true := by rw [hregresa]; exact Bool.false_ne_true
        -- A step that neither returns nor ends: nothing is asked of it.
        rw [equilibrado_paso config e r mem inbox res hres]
        exact iff_of_true ⟨fun hr => absurd hr hnot, fun ht => absurd ht hgoes⟩
          ⟨fun hr => absurd hr hnot, hbucle⟩
      · -- The end of the quantum looks like the end of the program.
        have hnot : ¬ e.cpu.regresa = true := by rw [hregresa]; exact Bool.false_ne_true
        rw [equilibrado_paso config e r mem inbox res hres]
        refine iff_of_false (fun heq => hnot (heq.2 hends).1) fun hreg => ?_
        have hmore := hreg.2 i hcontrol
        rw [hno, hbloqueado] at hmore
        rcases hmore with hm | hm
        · exact Bool.noConfusion hm
        · exact Bool.noConfusion hm
      · exact equilibrado_regresa_iff config e r mem inbox res conn s' hc hres hregresa hbucle
          hfin hpcb hflag

set_option maxRecDepth 4000

/-- A line `c` calls the function `f`, a line `v` defines a variable, a line `e` returns. -/
def mainConfig : Config :=
  { callConfig with
    tamanioPagina := 8
    parser := { callConfig.parser with
      analizadorLinea := fun texto =>
        if texto.head? = some 99 then .llamarSinRetorno [102] .fin
        else if texto.head? = some 118 then .definirVariable 97 fun _ => .fin
        else .finalizar .fin } }

/-- The lines `v`, `c`, `e` and `e`, in one frame. -/
def mainServer : Memoria.ServerState :=
  { marcoSize := 8
    pageTable := [{ pid := 1, page := 0 }]
    main := fun i => [118, 10, 99, 10, 101, 10, 101, 10].getD i.toNat 0 }

/-- A process with these lines, of which the last is `f`, about to begin at a line. -/
def mainStart (PC : Int) : Ejecucion :=
  { cpu := { callStart.1 with
      pcbActual := { callStart.1.pcbActual with
        PC := PC
        indexCode := [{ start := 0, offset := 2 }, { start := 2, offset := 2 },
          { start := 4, offset := 2 }, { start := 6, offset := 2 }]
        instructions := 4
        indexTag := [{ name := [102], PC := 3 }] }
      control := .bucle 1 }
    llamadas := []
    terminado := false }

/-- The main body begins with the second line: it defines no variable and calls `f`, which
    returns and ends the program. -/
theorem empty_main_ends : ¬ Along (Ejecucion.step mainConfig) (Equilibrado mainConfig)
    (mainStart 1) (List.replicate 5 (.paso callResidue mainServer [])) := by
  intro h
  have hlast := along_append (Ejecucion.step mainConfig) (Equilibrado mainConfig) (mainStart 1) _
    (List.replicate 4 (.paso callResidue mainServer [])) [.paso callResidue mainServer []] h rfl
  have hends := (hlast.1 _ rfl).2 (.inr ⟨_, List.mem_singleton_self _, rfl⟩)
  exact absurd hends.2 (by decide)

/-- In a run of a process from its fresh control block, the returns restore their callers
    and only the return of the main body ends the process, exactly when every step of the
    run is regular. -/
theorem calls_balanced_iff (config : Config) (e₀ e : Ejecucion) (sucesos : List Suceso)
    (hstack : e₀.cpu.pcbActual.stack = []) (hllamadas : e₀.llamadas = [])
    (hrun : run (Ejecucion.step config) e₀ sucesos = some e) :
    Along (Ejecucion.step config) (Equilibrado config) e₀ sucesos ↔
      Along (Ejecucion.step config) Regular e₀ sucesos := by
  refine along_congr (Ejecucion.step config) Regular (Equilibrado config) Ejecucion.Encadenada
    (fun e suceso u hc hstep => cadena_step config e u suceso hc hstep)
    (fun e suceso u hc hstep => equilibrado_iff_regular config e u suceso hc hstep)
    e₀ e sucesos ?_ hrun
  rw [Ejecucion.Encadenada, hllamadas, hstack]
  exact Nat.zero_le 1

/-- The main body defines a variable, calls `f`, and returns after it. -/
theorem calls_balanced_main : ∃ e,
    run (Ejecucion.step mainConfig) (mainStart 0)
      (List.replicate 11 (.paso callResidue mainServer [])) = some e ∧
    (Along (Ejecucion.step mainConfig) (Equilibrado mainConfig) (mainStart 0)
        (List.replicate 11 (.paso callResidue mainServer [])) ↔
      Along (Ejecucion.step mainConfig) Regular (mainStart 0)
        (List.replicate 11 (.paso callResidue mainServer []))) :=
  ⟨_, rfl, calls_balanced_iff mainConfig (mainStart 0) _
    (List.replicate 11 (.paso callResidue mainServer [])) rfl rfl rfl⟩

/-! ### Labels that are not found -/

/-- The label is none of those of the process. -/
def Desconocida (pcb : Pcb) (etiqueta : List UInt8) : Prop :=
  ∀ tag ∈ pcb.indexTag.take pcb.tags.toNat, cstr tag.name ≠ cstr etiqueta

instance (pcb : Pcb) (etiqueta : List UInt8) : Decidable (Desconocida pcb etiqueta) :=
  inferInstanceAs (Decidable (∀ tag ∈ pcb.indexTag.take pcb.tags.toNat, _))

theorem busquedaEtiqueta_desconocida (config : Config) (pcb : Pcb) (etiqueta : List UInt8)
    (h : Desconocida pcb etiqueta) : busquedaEtiqueta config pcb etiqueta = config.puntero (-1) := by
  unfold busquedaEtiqueta
  split
  next => rfl
  next htags =>
    cases hindex : pcb.indexTag with
    | nil => rfl
    | cons tag resto =>
        have hmem : tag ∈ pcb.indexTag.take pcb.tags.toNat := by
          rw [hindex, List.take_cons (by omega)]
          exact List.mem_cons_self
        simp only [if_neg (h tag hmem)]

/-- A jump to an unknown label changes nothing. -/
theorem irAlLabel_desconocida (config : Config) (pcb : Pcb) (etiqueta : List UInt8)
    (h : Desconocida pcb etiqueta) : irAlLabel config pcb etiqueta = pcb := by
  simp only [irAlLabel, busquedaEtiqueta_desconocida config pcb etiqueta h, if_true]

/-- A call of an unknown function leaves its context, from which the return goes to where the
    call is. -/
theorem llamada_desconocida (config : Config) (pcb : Pcb) (contexto : Stack)
    (etiqueta : List UInt8) (h : Desconocida pcb etiqueta) :
    irAlLabel config { pcb with stack := pcb.stack ++ [contexto] } etiqueta =
      { pcb with stack := pcb.stack ++ [contexto] } :=
  irAlLabel_desconocida config { pcb with stack := pcb.stack ++ [contexto] } etiqueta h

theorem stack_grows (pcb : Pcb) (contexto : Stack) :
    { pcb with stack := pcb.stack ++ [contexto] } ≠ pcb := by
  intro heq
  have hlength := congrArg (fun pcb : Pcb => pcb.stack.length) heq
  simp only [List.length_append, List.length_singleton] at hlength
  omega

/-- With a label that is not found, a jump leaves the control block as it was and a call of a
    function does not. -/
theorem failed_call_iff (config : Config) (r : Residue) (s : State) (mem : Memoria.ServerState)
    (inbox : List Packet) (i : Int) (linea : Linea) (etiqueta : List UInt8)
    (hcontrol : s.control = .linea i linea) (hlinea : linea.etiqueta = some etiqueta)
    (hno : Desconocida s.pcbActual etiqueta) :
    ∃ res, Cpu.step config r s mem inbox = some res ∧
      (res.state.pcbActual = s.pcbActual ↔ linea.callsFunction = false) := by
  rw [step_linea config r s mem inbox i linea hcontrol]
  cases linea with
  | irAlLabel otra sigue =>
      obtain rfl := Option.some.inj hlinea
      refine ⟨_, rfl, ?_⟩
      exact iff_of_true (irAlLabel_desconocida config s.pcbActual otra hno) rfl
  | llamarConRetorno otra dondeRetornar sigue =>
      obtain rfl := Option.some.inj hlinea
      refine ⟨_, rfl, ?_⟩
      refine iff_of_false ?_ (fun h => Bool.false_ne_true h.symm)
      simp only [llamarConRetorno, llamada_desconocida config s.pcbActual _ otra hno]
      exact stack_grows s.pcbActual _
  | llamarSinRetorno otra sigue =>
      obtain rfl := Option.some.inj hlinea
      refine ⟨_, rfl, ?_⟩
      refine iff_of_false ?_ (fun h => Bool.false_ne_true h.symm)
      simp only [llamarSinRetorno, llamada_desconocida config s.pcbActual _ otra hno]
      exact stack_grows s.pcbActual _
  | _ => exact nomatch hlinea

/-- The process of `mainStart`, about to make a call. -/
def failedState (linea : Linea) : State := { (mainStart 0).cpu with control := .linea 0 linea }

/-- A jump to `g`, of which there is none. -/
theorem failed_jump :
    Desconocida (failedState (.irAlLabel [103] .fin)).pcbActual [103] ∧
      ∃ res, Cpu.step mainConfig callResidue (failedState (.irAlLabel [103] .fin)) mainServer [] =
        some res ∧ (res.state.pcbActual = (failedState (.irAlLabel [103] .fin)).pcbActual ↔
          (Linea.irAlLabel [103] .fin).callsFunction = false) :=
  ⟨by decide, failed_call_iff mainConfig callResidue (failedState (.irAlLabel [103] .fin))
    mainServer [] 0 (.irAlLabel [103] .fin) [103] rfl rfl (by decide)⟩

/-- A call of `g`, of which there is none, has another context to return from. -/
theorem failed_call_leaves :
    Desconocida (failedState (.llamarSinRetorno [103] .fin)).pcbActual [103] ∧
      ∃ res, Cpu.step mainConfig callResidue (failedState (.llamarSinRetorno [103] .fin))
          mainServer [] = some res ∧ res.state.pcbActual.stack.length = 1 ∧
        res.state.pcbActual ≠ (failedState (.llamarSinRetorno [103] .fin)).pcbActual :=
  ⟨by decide, _, rfl, rfl, fun heq => nomatch congrArg (fun pcb => pcb.stack.length) heq⟩

end Cpu

end Esther
