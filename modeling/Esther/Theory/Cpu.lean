import Esther.Theory.Messages

/-!
# What the CPU's Steps Do

What a step of a CPU can do to the process it executes and to the kernel, once.

Two kinds of calls reach the kernel. Those of the parser library's table of kernel
functions, `Linea.callsKernel`, put the control block into a message and come back to
the line. `finalizar` does so for the last context of a process. Every other call
stays on the CPU, whatever it does to the stack or to memory.

## Main definitions

* `Linea.callsKernel`: The next call is one of the kernel's functions.
* `Linea.ends`: The next call ends a context.
* `HandsBack`: A packet hands a process back to the kernel as ended.

## Theorems

* `finalizar_cases`: Ending a context, and ending the process.
* `verificarTerminarEjecucion_cases`: After a line.
* `stepLinea_cases`, `stepLinea_silent`: Inside a line.
* `step_espera_cases`, `step_bucle_cases`, `step_linea`, `step_compartida_cases`: A step, by
  the place the CPU has reached.
-/

namespace Esther

/-- The next call is to one of the functions of `AnSISOP_kernel`, or to one of the two
    that read and write shared variables. -/
def Linea.callsKernel : Linea → Bool
  | .obtenerValorCompartida _ _ => true
  | .asignarValorCompartida _ _ _ => true
  | .signal _ _ => true
  | .wait _ _ => true
  | _ => false

/-- The next call is one of the two that end a context. -/
def Linea.ends : Linea → Bool
  | .retornar _ _ => true
  | .finalizar _ => true
  | _ => false

namespace Cpu

open Cells Serial

/-- The packet hands a process back to the kernel as ended. -/
def HandsBack (packet : Packet) (pid : Int) : Prop :=
  packet.header.opcode = .OP_CPU_PROGRAM_END ∧ ∃ pcb : Pcb, pcb.idProcess = pid
    ∧ CarriesPcb packet pcb

theorem finalizarPor_handsBack (r : Residue) (pcb : Pcb) (sent : List Packet)
    (h : finalizarPor r pcb .OP_CPU_PROGRAM_END = some sent) :
    ∃ packet, sent = [packet] ∧ HandsBack packet pcb.idProcess := by
  rw [finalizarPor, Option.map_eq_some_iff] at h
  rcases h with ⟨packet, hpacket, rfl⟩
  have hcarries := pcbPacket_carries r pcb _ packet hpacket
  exact ⟨packet, rfl, hcarries.1, pcb, rfl, hcarries.2⟩

/-- The two packets one of the kernel's functions begins with. -/
theorem syscallPackets_eq (r : Residue) (pcb : Pcb) (opcode : Opcode) (letra : UInt8)
    (nombre : List UInt8) (sent : List Packet)
    (h : syscallPackets r pcb opcode letra nombre = some sent) :
    ∃ packet, sent = [packet, { header := packet.header, payload := letra :: cstr nombre }]
      ∧ packet.header.opcode = opcode := by
  unfold syscallPackets at h
  split at h
  · rename_i packet hpacket
    split at h
    · exact absurd h (by simp)
    · rw [Option.some.injEq] at h
      exact ⟨packet, h.symm, (pcbPacket_carries r pcb opcode packet hpacket).1⟩
  · exact absurd h (by simp)

/-- A call of one of the kernel's functions begins with the control block. -/
theorem syscallPackets_carries (r : Residue) (pcb : Pcb) (opcode : Opcode) (letra : UInt8)
    (nombre : List UInt8) (sent : List Packet)
    (h : syscallPackets r pcb opcode letra nombre = some sent) :
    ∃ packet name, sent = [packet, name] ∧ packet.header.opcode = opcode
      ∧ CarriesPcb packet pcb := by
  unfold syscallPackets at h
  split at h
  · rename_i packet hpacket
    split at h
    · exact absurd h (by simp)
    · rw [Option.some.injEq] at h
      have hcarries := pcbPacket_carries r pcb opcode packet hpacket
      exact ⟨packet, _, h.symm, hcarries.1, hcarries.2⟩
  · exact absurd h (by simp)

/-- Ending a context returns to the one below it, and says nothing; ending the last
    one hands the process back. -/
theorem finalizar_cases (r : Residue) (s s' : State) (sent : List Packet)
    (h : finalizar r s = some (s', sent)) :
    s'.pcbActual.idProcess = s.pcbActual.idProcess ∧
      ((sent = [] ∧ s'.finPrograma = s.finPrograma)
        ∨ (s'.finPrograma = true ∧ ∃ packet, sent = [packet]
            ∧ HandsBack packet s.pcbActual.idProcess)) := by
  simp only [finalizar] at h
  split at h
  · rw [Option.some.injEq, Prod.mk.injEq] at h
    rcases h with ⟨rfl, rfl⟩
    exact ⟨rfl, Or.inl ⟨rfl, rfl⟩⟩
  · rw [Option.map_eq_some_iff] at h
    -- The last context: the control block is sent with the flag of the end.
    rcases h with ⟨sent', hsent, heq⟩
    rw [Prod.mk.injEq] at heq
    rcases heq with ⟨rfl, rfl⟩
    have hback := finalizarPor_handsBack r _ _ hsent
    exact ⟨rfl, Or.inr ⟨rfl, hback⟩⟩

/-- After a line the CPU stops, or neither of the two flags was set and nothing has
    changed. -/
theorem verificarTerminarEjecucion_cases (s : State) :
    (verificarTerminarEjecucion s).1.pcbActual = s.pcbActual
      ∧ ((verificarTerminarEjecucion s).2 = true
        ∨ (verificarTerminarEjecucion s = (s, false) ∧ s.finPrograma = false)) := by
  unfold verificarTerminarEjecucion
  by_cases hover : s.huboStackOver = true
  · rw [if_pos hover]
    exact ⟨rfl, Or.inl rfl⟩
  · rw [if_neg hover]
    by_cases hfin : s.finPrograma = true
    · rw [if_pos hfin]
      exact ⟨rfl, Or.inl rfl⟩
    · rw [if_neg hfin]
      exact ⟨rfl, Or.inr ⟨rfl, Bool.eq_false_iff.mpr hfin⟩⟩

theorem irAlLabel_pid (config : Config) (pcb : Pcb) (etiqueta : List UInt8) :
    (irAlLabel config pcb etiqueta).idProcess = pcb.idProcess := by
  simp only [irAlLabel]
  split <;> rfl

theorem definirVariable_keeps (config : Config) (r : Residue) (s : State) (identificador : Int) :
    (definirVariable config r s identificador).1.pcbActual.idProcess = s.pcbActual.idProcess
      ∧ (definirVariable config r s identificador).1.finPrograma = s.finPrograma := by
  simp only [definirVariable]
  split <;> exact ⟨rfl, rfl⟩

theorem dereferenciar_keeps (config : Config) (r : Residue) (s s' : State)
    (mem mem' : Memoria.ServerState) (direccion valor : Int)
    (h : dereferenciar config r s mem direccion = some (s', mem', valor)) :
    s'.pcbActual = s.pcbActual ∧ s'.finPrograma = s.finPrograma := by
  unfold dereferenciar at h
  extract_lets packet at h
  generalize Memoria.solBytPag mem s.conn r.server packet = answer at h
  cases answer with
  | none => exact absurd h (by simp)
  | some answer =>
      simp only [Option.some.injEq, Prod.mk.injEq] at h
      rw [← h.1]
      exact ⟨rfl, rfl⟩

/-- What a call inside a line leads to: the rest of the line, with the same process and
    nothing sent, unless the call has ended the process. -/
def Continues (s : State) (inbox : List Packet) (i : Int) (res : Result) : Prop :=
  res.inbox = inbox ∧ res.state.pcbActual.idProcess = s.pcbActual.idProcess
    ∧ (∃ linea, res.state.control = .linea i linea)
    ∧ ((res.sent = [] ∧ res.state.finPrograma = s.finPrograma)
      ∨ (res.state.finPrograma = true ∧ ∃ packet, res.sent = [packet]
          ∧ HandsBack packet s.pcbActual.idProcess))

/-- What the end of a line leads to: the CPU waits for the kernel, or the next round of
    the loop begins. -/
def EndsLine (s : State) (inbox : List Packet) (i : Int) (res : Result) : Prop :=
  res.inbox = inbox ∧ res.sent = []
    ∧ (res.state.control = .espera
      ∨ (res.state.control = .bucle (i + 1)
          ∧ res.state.pcbActual.idProcess = s.pcbActual.idProcess
          ∧ s.finPrograma = false ∧ res.state.finPrograma = false))

/-- A step inside a line that does not call the kernel. -/
theorem stepLinea_cases (config : Config) (r : Residue) (s : State) (mem : Memoria.ServerState)
    (inbox : List Packet) (i : Int) (linea : Linea) (res : Result)
    (hcall : linea.callsKernel = false)
    (h : stepLinea config r s mem inbox i linea = some res) :
    Continues s inbox i res ∨ EndsLine s inbox i res := by
  cases linea with
  | fin =>
      refine Or.inr ?_
      have hver := verificarTerminarEjecucion_cases s
      simp only [stepLinea] at h
      -- The end of a line: the flags are tested, and the next round begins if none is set.
      split at h
      · rw [Option.some.injEq] at h
        subst h
        exact ⟨rfl, rfl, Or.inl rfl⟩
      · rename_i hgo
        rw [Option.some.injEq] at h
        subst h
        rcases hver.2 with hstop | ⟨hsame, hfin⟩
        · exact absurd hstop hgo
        · refine ⟨rfl, rfl, Or.inr ⟨rfl, ?_, hfin, ?_⟩⟩
          · rw [hsame]
          · simp only [hsame, hfin]
  | definirVariable identificador sigue =>
      simp only [stepLinea, Option.some.injEq] at h
      subst h
      have hkeeps := definirVariable_keeps config r s identificador
      exact Or.inl ⟨rfl, hkeeps.1, ⟨_, rfl⟩, Or.inl ⟨rfl, hkeeps.2⟩⟩
  | obtenerPosicionVariable identificador sigue =>
      simp only [stepLinea, Option.map_eq_some_iff] at h
      rcases h with ⟨posicion, -, rfl⟩
      exact Or.inl ⟨rfl, rfl, ⟨_, rfl⟩, Or.inl ⟨rfl, rfl⟩⟩
  | dereferenciar direccion sigue =>
      simp only [stepLinea, Option.map_eq_some_iff] at h
      rcases h with ⟨⟨s', mem', valor⟩, hd, rfl⟩
      have hkeeps := dereferenciar_keeps config r s s' mem mem' direccion valor hd
      exact Or.inl ⟨rfl, congrArg Pcb.idProcess hkeeps.1, ⟨_, rfl⟩, Or.inl ⟨rfl, hkeeps.2⟩⟩
  | asignar direccion valor sigue =>
      simp only [stepLinea, Option.some.injEq] at h
      subst h
      exact Or.inl ⟨rfl, rfl, ⟨_, rfl⟩, Or.inl ⟨rfl, rfl⟩⟩
  | irAlLabel etiqueta sigue =>
      simp only [stepLinea, Option.some.injEq] at h
      subst h
      exact Or.inl ⟨rfl, irAlLabel_pid _ _ _, ⟨_, rfl⟩, Or.inl ⟨rfl, rfl⟩⟩
  | llamarConRetorno etiqueta dondeRetornar sigue =>
      simp only [stepLinea, Option.some.injEq] at h
      subst h
      exact Or.inl ⟨rfl, irAlLabel_pid _ _ _, ⟨_, rfl⟩, Or.inl ⟨rfl, rfl⟩⟩
  | llamarSinRetorno etiqueta sigue =>
      simp only [stepLinea, Option.some.injEq] at h
      subst h
      exact Or.inl ⟨rfl, irAlLabel_pid _ _ _, ⟨_, rfl⟩, Or.inl ⟨rfl, rfl⟩⟩
  | retornar retorno sigue =>
      simp only [stepLinea, Option.map_eq_some_iff] at h
      rcases h with ⟨⟨s', mem', sent⟩, hret, rfl⟩
      simp only [retornar] at hret
      split at hret
      · rw [Option.map_eq_some_iff] at hret
        rcases hret with ⟨⟨s'', sent'⟩, hfin, heq⟩
        rw [Prod.mk.injEq, Prod.mk.injEq] at heq
        rcases heq with ⟨rfl, -, rfl⟩
        -- `retornar` stores its value and then goes on as `finalizar`.
        rcases finalizar_cases r _ _ _ hfin with ⟨hpid, hcase⟩
        exact Or.inl ⟨rfl, hpid, ⟨_, rfl⟩, hcase⟩
      · exact absurd hret (by simp)
  | finalizar sigue =>
      simp only [stepLinea, Option.map_eq_some_iff] at h
      rcases h with ⟨⟨s', sent⟩, hfin, rfl⟩
      rcases finalizar_cases r s s' sent hfin with ⟨hpid, hcase⟩
      exact Or.inl ⟨rfl, hpid, ⟨_, rfl⟩, hcase⟩
  -- The four calls of the kernel are excluded by `hcall`.
  | obtenerValorCompartida _ _ => exact absurd hcall (by simp [Linea.callsKernel])
  | asignarValorCompartida _ _ _ => exact absurd hcall (by simp [Linea.callsKernel])
  | signal _ _ => exact absurd hcall (by simp [Linea.callsKernel])
  | wait _ _ => exact absurd hcall (by simp [Linea.callsKernel])

/-- Nothing else is sent from inside a line. -/
theorem stepLinea_silent (config : Config) (r : Residue) (s : State) (mem : Memoria.ServerState)
    (inbox : List Packet) (i : Int) (linea : Linea) (res : Result)
    (hcall : linea.callsKernel = false) (hends : linea.ends = false)
    (h : stepLinea config r s mem inbox i linea = some res) : res.sent = [] := by
  cases linea with
  | fin =>
      simp only [stepLinea] at h
      split at h <;> (rw [Option.some.injEq] at h; rw [← h])
  | definirVariable _ _ => rw [← Option.some.inj h]
  | obtenerPosicionVariable _ _ =>
      rw [stepLinea, Option.map_eq_some_iff] at h
      rcases h with ⟨_, -, rfl⟩
      rfl
  | dereferenciar _ _ =>
      rw [stepLinea, Option.map_eq_some_iff] at h
      rcases h with ⟨_, -, rfl⟩
      rfl
  | asignar _ _ _ => rw [← Option.some.inj h]
  | irAlLabel _ _ => rw [← Option.some.inj h]
  | llamarConRetorno _ _ _ => rw [← Option.some.inj h]
  | llamarSinRetorno _ _ => rw [← Option.some.inj h]
  | retornar _ _ => exact absurd hends (by simp [Linea.ends])
  | finalizar _ => exact absurd hends (by simp [Linea.ends])
  | obtenerValorCompartida _ _ => exact absurd hcall (by simp [Linea.callsKernel])
  | asignarValorCompartida _ _ _ => exact absurd hcall (by simp [Linea.callsKernel])
  | signal _ _ => exact absurd hcall (by simp [Linea.callsKernel])
  | wait _ _ => exact absurd hcall (by simp [Linea.callsKernel])

/-- A message starts a burst, or changes nothing about where the CPU stands. -/
theorem recibirMensajesDeKernel_control (r : Residue) (s : State) (packet : Packet) :
    (recibirMensajesDeKernel r s packet).control = .bucle 1
      ∨ (recibirMensajesDeKernel r s packet).control = s.control := by
  unfold recibirMensajesDeKernel
  split
  · exact Or.inl rfl
  · exact Or.inl rfl
  · exact Or.inr rfl

/-- A CPU that waits takes the next message. A control block starts a burst, and so would
    a quantum; the rest is read and forgotten. -/
theorem step_espera_cases (config : Config) (r : Residue) (s : State) (mem : Memoria.ServerState)
    (inbox : List Packet) (res : Result) (hcontrol : s.control = .espera)
    (h : step config r s mem inbox = some res) :
    ∃ packet, inbox = packet :: res.inbox ∧ res.memoria = mem ∧ res.sent = []
      ∧ ((packet.header.opcode = .OP_KE_SEND_PCB
          ∧ res.state = ejecutarPrograma
              { s with pcbActual := serialUnpackPcb (packet.pointer r.reply) })
        ∨ packet.header.opcode = .OP_KE_SEND_QUANTUM
        ∨ (packet.header.opcode ≠ .OP_KE_SEND_PCB ∧ res.state = s)) := by
  simp only [step, hcontrol] at h
  cases inbox with
  | nil => exact absurd h (by simp)
  | cons packet inbox =>
      simp only [Option.some.injEq] at h
      subst h
      refine ⟨packet, rfl, rfl, rfl, ?_⟩
      simp only [recibirMensajesDeKernel]
      -- A control block starts a burst, a quantum starts one with the old control block.
      cases hop : packet.header.opcode with
      | OP_KE_SEND_PCB => exact Or.inl ⟨rfl, rfl⟩
      | OP_KE_SEND_QUANTUM => exact Or.inr (Or.inl rfl)
      | _ => exact Or.inr (Or.inr ⟨by simp, rfl⟩)

/-- At the test of the loop a CPU fetches the next line, or hands the process back if the
    quantum is used up. -/
theorem step_bucle_cases (config : Config) (r : Residue) (s : State) (mem : Memoria.ServerState)
    (inbox : List Packet) (res : Result) (i : Int) (hcontrol : s.control = .bucle i)
    (h : step config r s mem inbox = some res) :
    res.inbox = inbox ∧
      ((seguirEjecutando s.pcbActual i = true ∧ res.sent = [] ∧ ∃ conn linea,
          res.state = { s with conn := conn, control := .linea i linea })
        ∨ (seguirEjecutando s.pcbActual i = false ∧ res.memoria = mem
          ∧ res.state = { s with control := .espera }
          ∧ ((s.procesoBloqueado = true ∧ res.sent = [])
            ∨ ∃ packet, res.sent = [packet] ∧ HandsBack packet s.pcbActual.idProcess))) := by
  simp only [step, hcontrol] at h
  split at h
  · rename_i hseguir
    rw [Option.map_eq_some_iff] at h
    rcases h with ⟨⟨s', mem'⟩, hbuscar, rfl⟩
    refine ⟨rfl, Or.inl ⟨hseguir, rfl, ?_⟩⟩
    -- The line that is looked up may fail to arrive in three ways, none of which is a step.
    simp only [buscarLinea] at hbuscar
    split at hbuscar
    · exact absurd hbuscar (by simp)
    split at hbuscar
    · exact absurd hbuscar (by simp)
    split at hbuscar
    · exact absurd hbuscar (by simp)
    rw [Option.some.injEq, Prod.mk.injEq] at hbuscar
    exact ⟨_, _, hbuscar.1.symm⟩
  · rename_i hseguir
    -- The loop is left, and sends the control block unless the process is blocked.
    have hno := Bool.eq_false_iff.mpr hseguir
    split at h
    · rename_i hbloqueado
      rw [Option.some.injEq] at h
      subst h
      exact ⟨rfl, Or.inr ⟨hno, rfl, rfl, Or.inl ⟨hbloqueado, rfl⟩⟩⟩
    · rw [Option.map_eq_some_iff] at h
      rcases h with ⟨sent, hsent, rfl⟩
      exact ⟨rfl, Or.inr ⟨hno, rfl, rfl, Or.inr (finalizarPor_handsBack r _ _ hsent)⟩⟩

/-- Inside a line nothing is read. -/
theorem stepLinea_inbox (config : Config) (r : Residue) (s : State) (mem : Memoria.ServerState)
    (inbox : List Packet) (i : Int) (linea : Linea) (res : Result)
    (h : stepLinea config r s mem inbox i linea = some res) : res.inbox = inbox := by
  by_cases hcall : linea.callsKernel = false
  · rcases stepLinea_cases config r s mem inbox i linea res hcall h with hgo | hend
    · exact hgo.1
    · exact hend.1
  · -- Only the calls of the kernel are left, and they send without reading.
    cases linea with
    | obtenerValorCompartida _ _ =>
        rw [stepLinea, Option.map_eq_some_iff] at h
        rcases h with ⟨_, -, rfl⟩
        rfl
    | asignarValorCompartida _ _ _ =>
        rw [stepLinea, Option.map_eq_some_iff] at h
        rcases h with ⟨_, -, rfl⟩
        rfl
    | signal _ _ =>
        rw [stepLinea, Option.map_eq_some_iff] at h
        rcases h with ⟨_, -, rfl⟩
        rfl
    | wait _ _ =>
        rw [stepLinea, Option.map_eq_some_iff] at h
        rcases h with ⟨_, -, rfl⟩
        rfl
    | _ => exact absurd rfl hcall

/-- Inside a line. -/
theorem step_linea (config : Config) (r : Residue) (s : State) (mem : Memoria.ServerState)
    (inbox : List Packet) (i : Int) (linea : Linea) (hcontrol : s.control = .linea i linea) :
    step config r s mem inbox = stepLinea config r s mem inbox i linea := by
  simp only [step, hcontrol]

/-- A CPU that has asked for a shared value takes the next message for it. -/
theorem step_compartida_cases (config : Config) (r : Residue) (s : State)
    (mem : Memoria.ServerState) (inbox : List Packet) (res : Result) (i : Int)
    (sigue : Int → Linea) (hcontrol : s.control = .compartida i sigue)
    (h : step config r s mem inbox = some res) :
    ∃ packet rest, inbox = packet :: rest ∧ res =
      { state := { s with control := .linea i (sigue (unpacki16 (packet.pointer r.reply) 0)) }
        memoria := mem
        inbox := rest
        sent := [] } := by
  simp only [step, hcontrol] at h
  cases inbox with
  | nil => exact absurd h (by simp only [reduceCtorEq, not_false_eq_true])
  | cons packet rest => exact ⟨packet, rest, rfl, (Option.some.inj h).symm⟩

/-- A CPU reads from the front. -/
theorem step_suffix (config : Config) (r : Residue) (s : State) (mem : Memoria.ServerState)
    (inbox : List Packet) (res : Result) (h : step config r s mem inbox = some res) :
    ∃ packets, inbox = packets ++ res.inbox := by
  cases hcontrol : s.control with
  | espera =>
      rcases step_espera_cases config r s mem inbox res hcontrol h with ⟨packet, hinbox, -⟩
      exact ⟨[packet], hinbox⟩
  | bucle i =>
      have hinbox := (step_bucle_cases config r s mem inbox res i hcontrol h).1
      exact ⟨[], hinbox.symm⟩
  | linea i linea =>
      rw [step_linea config r s mem inbox i linea hcontrol] at h
      exact ⟨[], (stepLinea_inbox config r s mem inbox i linea res h).symm⟩
  | compartida i sigue =>
      rcases step_compartida_cases config r s mem inbox res i sigue hcontrol h with
        ⟨packet, rest, rfl, rfl⟩
      exact ⟨[packet], rfl⟩

end Cpu

end Esther
