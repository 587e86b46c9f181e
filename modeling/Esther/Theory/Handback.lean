import Esther.Theory.Calls

/-!
# Handing a Process Back

How many messages with the control block of its process a CPU sends in a burst.

The kernel takes every such message for the end of the burst: it removes the process from
`pcb_exec` and has the CPU back. Three kinds of steps send one. A return from the last
context there is and the test of the loop, once the quantum is used up, send it as
`OP_CPU_PROGRAM_END`. The functions of the kernel send it in front of their arguments, and
the burst goes on, since nothing sets `procesoBloqueado`. A stack overflow, whose message is
commented out in `verificarTerminarEjecucion`, ends the burst and sends nothing.

A burst is followed from `ejecutarPrograma` to the next wait for the kernel. Before each of
its steps the memory server and the packets of the kernel are as the others have left them.

## Main definitions

* `Rafaga`: A CPU in a burst, and the messages it has sent.
* `LlevaPcb`, `UnaEntrega`: A message carries the control block of a process, and one alone
  of the messages does.
* `State.llamaKernel`, `State.cierra`, `State.agota`: The three kinds of steps.

## Theorems

* `stepLinea_sends`: What a step inside a line sends.
* `rafaga_step`: What one step adds to the messages.
* `overflow_sends_nothing`: A burst that hands nothing back.
* `one_handback_iff`: A burst hands the process back once exactly when it ends with the
  quantum and calls no function of the kernel, or ends otherwise and has one call of the
  kernel or one last return, and not both.
-/

namespace Esther

namespace Cpu

open Transition

/-- A CPU in a burst, and its messages to the kernel since the burst began. The packets of
    one primitive are one message. -/
structure Rafaga where
  cpu : State
  mensajes : List (List Packet)

/-- What a step finds: the bytes nobody has written, the memory server, and the packets of
    the kernel not yet read. -/
structure Entorno where
  residue : Residue
  memoria : Memoria.ServerState
  inbox : List Packet

/-- The burst is over when the CPU waits for the kernel. -/
def Rafaga.step (config : Config) (b : Rafaga) (e : Entorno) : Option Rafaga :=
  if b.cpu.enEspera then none
  else (Cpu.step config e.residue b.cpu e.memoria e.inbox).map fun res =>
    { cpu := res.state
      mensajes := if res.sent.isEmpty then b.mensajes else b.mensajes ++ [res.sent] }

/-- `ejecutarPrograma` is called. -/
def Rafaga.init (s : State) : Rafaga := { cpu := ejecutarPrograma s, mensajes := [] }

/-- A packet of the message is the control block of the process. -/
def LlevaPcb (pid : Int) (mensaje : List Packet) : Prop :=
  ∃ packet ∈ mensaje, ∃ pcb : Pcb, pcb.idProcess = pid ∧ CarriesPcb packet pcb

/-- Exactly one of the messages carries the control block of the process. -/
def UnaEntrega (pid : Int) (mensajes : List (List Packet)) : Prop :=
  ∃ antes mensaje despues, mensajes = antes ++ mensaje :: despues ∧ LlevaPcb pid mensaje ∧
    ∀ otro ∈ antes ++ despues, ¬ LlevaPcb pid otro

/-- The next call is one of the functions of the kernel. -/
def State.llamaKernel (s : State) : Bool :=
  match s.control with
  | .linea _ linea => linea.callsKernel
  | _ => false

/-- The next step returns from the last context there is. -/
def State.cierra (s : State) : Bool := s.regresa && decide (s.pcbActual.stack.length ≤ 1)

/-- The next step finds the quantum used up. -/
def State.agota (s : State) : Bool :=
  match s.control with
  | .bucle i => !seguirEjecutando s.pcbActual i
  | _ => false

/-! ### What a step sends -/

theorem finalizar_bloqueado (r : Residue) (s s' : State) (sent : List Packet)
    (h : finalizar r s = some (s', sent)) : s'.procesoBloqueado = s.procesoBloqueado := by
  simp only [finalizar] at h
  split at h
  · rw [Option.some.injEq, Prod.mk.injEq] at h
    rw [← h.1]
  · rw [Option.map_eq_some_iff] at h
    rcases h with ⟨_, -, heq⟩
    rw [Prod.mk.injEq] at heq
    rw [← heq.1]

/-- Inside a line the process stays the same, and is not marked as blocked. -/
theorem stepLinea_keeps (config : Config) (r : Residue) (s : State) (mem : Memoria.ServerState)
    (inbox : List Packet) (i : Int) (linea : Linea) (res : Result)
    (h : stepLinea config r s mem inbox i linea = some res) :
    res.state.procesoBloqueado = s.procesoBloqueado ∧
      res.state.pcbActual.idProcess = s.pcbActual.idProcess := by
  cases linea with
  | fin =>
      -- The test at the end of a line changes the flags of the end only.
      have hbloqueado : (verificarTerminarEjecucion s).1.procesoBloqueado = s.procesoBloqueado := by
        unfold verificarTerminarEjecucion
        split
        · rfl
        · split <;> rfl
      have hpid := congrArg Pcb.idProcess (verificarTerminarEjecucion_cases s).1
      simp only [stepLinea] at h
      split at h
      · obtain rfl := Option.some.inj h
        exact ⟨hbloqueado, hpid⟩
      · obtain rfl := Option.some.inj h
        exact ⟨hbloqueado, hpid⟩
  | definirVariable identificador _ =>
      obtain rfl := Option.some.inj h
      refine ⟨?_, (definirVariable_keeps config r s identificador).1⟩
      simp only [definirVariable]
      split <;> rfl
  | dereferenciar direccion _ =>
      rw [stepLinea, Option.map_eq_some_iff] at h
      rcases h with ⟨⟨s', mem', valor⟩, hd, rfl⟩
      -- Of the processor a read changes the connection only.
      unfold dereferenciar at hd
      extract_lets packet at hd
      generalize Memoria.solBytPag mem s.conn r.server packet = answer at hd
      cases answer with
      | none => exact absurd hd (by simp only [reduceCtorEq, not_false_eq_true])
      | some answer =>
          simp only [Option.some.injEq, Prod.mk.injEq] at hd
          rw [← hd.1]
          exact ⟨rfl, rfl⟩
  | asignar _ _ _ =>
      obtain rfl := Option.some.inj h
      exact ⟨rfl, rfl⟩
  | irAlLabel etiqueta _ =>
      obtain rfl := Option.some.inj h
      exact ⟨rfl, irAlLabel_pid config _ etiqueta⟩
  | llamarConRetorno etiqueta _ _ =>
      obtain rfl := Option.some.inj h
      exact ⟨rfl, irAlLabel_pid config _ etiqueta⟩
  | llamarSinRetorno etiqueta _ =>
      obtain rfl := Option.some.inj h
      exact ⟨rfl, irAlLabel_pid config _ etiqueta⟩
  | retornar retorno _ =>
      rw [stepLinea, Option.map_eq_some_iff] at h
      rcases h with ⟨⟨s', mem', sent⟩, hret, rfl⟩
      rcases retornar_finalizar config r s s' mem mem' retorno sent hret with ⟨_, conn, hfin⟩
      exact ⟨finalizar_bloqueado r { s with conn := conn } s' sent hfin,
        (finalizar_cases r { s with conn := conn } s' sent hfin).1⟩
  | finalizar _ =>
      rw [stepLinea, Option.map_eq_some_iff] at h
      rcases h with ⟨⟨s', sent⟩, hfin, rfl⟩
      exact ⟨finalizar_bloqueado r s s' sent hfin, (finalizar_cases r s s' sent hfin).1⟩
  | _ =>
      rw [stepLinea, Option.map_eq_some_iff] at h
      rcases h with ⟨_, -, rfl⟩
      exact ⟨rfl, rfl⟩

/-- A call of the kernel sends the control block first, and the line goes on. -/
theorem stepLinea_kernel (config : Config) (r : Residue) (s : State) (mem : Memoria.ServerState)
    (inbox : List Packet) (i : Int) (linea : Linea) (res : Result)
    (hcall : linea.callsKernel = true)
    (h : stepLinea config r s mem inbox i linea = some res) :
    res.sent.isEmpty = false ∧ LlevaPcb s.pcbActual.idProcess res.sent ∧
      res.state.finPrograma = s.finPrograma ∧ (∀ j, res.state.control ≠ .bucle j) := by
  -- Whatever follows the control block, the message carries it.
  have hfirst : ∀ (opcode : Opcode) (letra : UInt8) (nombre : List UInt8)
      (sent resto : List Packet), syscallPackets r s.pcbActual opcode letra nombre = some sent →
      (sent ++ resto).isEmpty = false ∧ LlevaPcb s.pcbActual.idProcess (sent ++ resto) := by
    intro opcode letra nombre sent resto hsent
    rcases syscallPackets_carries r s.pcbActual opcode letra nombre sent hsent with
      ⟨packet, name, rfl, _, hcarries⟩
    exact ⟨rfl, packet, List.mem_cons_self, s.pcbActual, rfl, hcarries⟩
  cases linea with
  | obtenerValorCompartida nombre sigue =>
      rw [stepLinea, Option.map_eq_some_iff] at h
      rcases h with ⟨sent, hsent, rfl⟩
      have hone := hfirst _ _ _ sent [] hsent
      rw [List.append_nil] at hone
      exact ⟨hone.1, hone.2, rfl, fun j hj => Control.noConfusion hj⟩
  | asignarValorCompartida nombre valor sigue =>
      rw [stepLinea, Option.map_eq_some_iff] at h
      rcases h with ⟨sent, hsent, rfl⟩
      rw [asignarValorCompartida, Option.map_eq_some_iff] at hsent
      rcases hsent with ⟨sent, hsent, rfl⟩
      have hone := hfirst _ _ _ sent
        [packed r (protocolHeader .CPU .OP_CPU_SHARED_VAR) [.h valor]] hsent
      exact ⟨hone.1, hone.2, rfl, fun j hj => Control.noConfusion hj⟩
  | signal identificador sigue =>
      rw [stepLinea, Option.map_eq_some_iff] at h
      rcases h with ⟨sent, hsent, rfl⟩
      have hone := hfirst _ _ _ sent [] hsent
      rw [List.append_nil] at hone
      exact ⟨hone.1, hone.2, rfl, fun j hj => Control.noConfusion hj⟩
  | wait identificador sigue =>
      rw [stepLinea, Option.map_eq_some_iff] at h
      rcases h with ⟨sent, hsent, rfl⟩
      have hone := hfirst _ _ _ sent [] hsent
      rw [List.append_nil] at hone
      exact ⟨hone.1, hone.2, rfl, fun j hj => Control.noConfusion hj⟩
  | _ => exact Bool.noConfusion hcall

/-- A return sends the control block when there is no other context, and the process is then
    marked as ended; otherwise it sends nothing. -/
theorem finalizar_sends (r : Residue) (s s' : State) (sent : List Packet)
    (h : finalizar r s = some (s', sent)) :
    (s.pcbActual.stack.length ≤ 1 → sent.isEmpty = false ∧
        LlevaPcb s.pcbActual.idProcess sent ∧ s'.finPrograma = true) ∧
      (¬ s.pcbActual.stack.length ≤ 1 → sent.isEmpty = true ∧
        s'.finPrograma = s.finPrograma) := by
  constructor
  · -- The last context: the process ends and its control block is sent.
    intro hlast
    rcases finalizar_ends r s s' sent hlast h with ⟨packet, hmem, _⟩
    rcases (finalizar_cases r s s' sent h).2 with ⟨hnil, _⟩ | ⟨hfin, back, rfl, hback⟩
    · rw [hnil] at hmem
      exact absurd hmem List.not_mem_nil
    · exact ⟨rfl, ⟨back, List.mem_singleton_self back, hback.2⟩, hfin⟩
  · -- There is a context below, to which the function returns in silence.
    intro hmore
    rcases finalizar_stack r s s' sent h with ⟨hnil, _⟩ | ⟨contexto, hstack, _⟩
    · rw [hnil] at hmore
      exact absurd (Nat.zero_le 1) hmore
    · rw [hstack, List.length_append, List.length_singleton] at hmore
      have hbelow : s'.pcbActual.stack ≠ [] := by
        rintro hnil
        rw [hnil, List.length_nil] at hmore
        omega
      rcases finalizar_returns r s s' sent _ contexto hstack hbelow h with ⟨hsent, hfin, _⟩
      exact ⟨by rw [hsent]; rfl, hfin⟩

/-! ### What a burst sends -/

/-- One of the three kinds of steps. -/
def State.entrega (s : State) : Bool := (s.llamaKernel || s.cierra) || s.agota

/-- A process that has been marked as ended does not get to the test of the loop again. -/
def State.Acabado (s : State) : Prop :=
  s.enEspera = true ∨ s.finPrograma = true ∧ ∀ i, s.control ≠ .bucle i

/-- A step of a burst is a step of the CPU. -/
theorem rafaga_paso (config : Config) (b b' : Rafaga) (e : Entorno)
    (h : b.step config e = some b') :
    b.cpu.enEspera = false ∧ ∃ res, Cpu.step config e.residue b.cpu e.memoria e.inbox = some res ∧
      b' = { cpu := res.state
             mensajes := if res.sent.isEmpty then b.mensajes else b.mensajes ++ [res.sent] } := by
  rw [Rafaga.step] at h
  by_cases hespera : b.cpu.enEspera = true
  · rw [if_pos hespera] at h
    exact absurd h (by simp only [reduceCtorEq, not_false_eq_true])
  rw [if_neg hespera, Option.map_eq_some_iff] at h
  rcases h with ⟨res, hres, rfl⟩
  exact ⟨Bool.eq_false_iff.mpr hespera, res, hres, rfl⟩

/-- A step of a burst of a process that is not blocked: one of the three kinds sends the
    control block, and the others send nothing. -/
theorem step_sends (config : Config) (r : Residue) (s : State) (mem : Memoria.ServerState)
    (inbox : List Packet) (res : Result) (hespera : s.enEspera = false)
    (hlibre : s.procesoBloqueado = false)
    (h : Cpu.step config r s mem inbox = some res) :
    res.state.procesoBloqueado = false ∧
      res.state.pcbActual.idProcess = s.pcbActual.idProcess ∧
      (s.entrega = true → res.sent.isEmpty = false ∧
        LlevaPcb s.pcbActual.idProcess res.sent) ∧
      (s.entrega = false → res.sent.isEmpty = true) := by
  cases hcontrol : s.control with
  | espera =>
      rw [State.enEspera, hcontrol] at hespera
      exact Bool.noConfusion hespera
  | bucle i =>
      -- At the test of the loop there is only the quantum to be used up.
      have hentrega : s.entrega = !seguirEjecutando s.pcbActual i := by
        simp only [State.entrega, State.llamaKernel, State.cierra, State.regresa, State.agota,
          hcontrol, Bool.false_and, Bool.or_self, Bool.false_or]
      rw [hentrega]
      rcases (step_bucle_cases config r s mem inbox res i hcontrol h).2 with
        ⟨hseguir, hsent, conn, linea, hstate⟩ | ⟨hno, _, hstate, hback⟩
      · rw [hseguir, hstate, hsent]
        exact ⟨hlibre, rfl, fun hc => Bool.noConfusion hc, fun _ => rfl⟩
      · rw [hno, hstate]
        refine ⟨hlibre, rfl, fun _ => ?_, fun hc => Bool.noConfusion hc⟩
        rcases hback with ⟨hblocked, _⟩ | ⟨packet, hsent, hpacket⟩
        · rw [hlibre] at hblocked
          exact Bool.noConfusion hblocked
        · rw [hsent]
          exact ⟨rfl, packet, List.mem_singleton_self packet, hpacket.2⟩
  | compartida i sigue =>
      have hentrega : s.entrega = false := by
        simp only [State.entrega, State.llamaKernel, State.cierra, State.regresa, State.agota,
          hcontrol, Bool.false_and, Bool.or_self]
      rw [hentrega]
      rcases step_compartida_cases config r s mem inbox res i sigue hcontrol h with
        ⟨packet, rest, rfl, rfl⟩
      exact ⟨hlibre, rfl, fun hc => Bool.noConfusion hc, fun _ => rfl⟩
  | linea i linea =>
      rw [step_linea config r s mem inbox i linea hcontrol] at h
      have hkeeps := stepLinea_keeps config r s mem inbox i linea res h
      refine ⟨hkeeps.1.trans hlibre, hkeeps.2, ?_⟩
      have hentrega : s.entrega
          = (linea.callsKernel || linea.ends && decide (s.pcbActual.stack.length ≤ 1)) := by
        simp only [State.entrega, State.llamaKernel, State.cierra, State.regresa, State.agota,
          hcontrol, Bool.or_false]
      rw [hentrega]
      by_cases hcall : linea.callsKernel = true
      · rcases stepLinea_kernel config r s mem inbox i linea res hcall h with
          ⟨hsent, hlleva, _⟩
        rw [hcall, Bool.true_or]
        exact ⟨fun _ => ⟨hsent, hlleva⟩, fun hc => Bool.noConfusion hc⟩
      have hquiet := Bool.eq_false_iff.mpr hcall
      rw [hquiet, Bool.false_or]
      -- A call that is not the kernel's sends the control block when it is the last return.
      by_cases hends : linea.ends = true
      · rcases stepLinea_ends config r s mem inbox i linea res hends h with ⟨conn, s', hfin, _⟩
        have hsends := finalizar_sends r { s with conn := conn } s' res.sent hfin
        rw [hends, Bool.true_and, decide_eq_true_eq, decide_eq_false_iff_not]
        refine ⟨fun hlast => ?_, fun hmore => (hsends.2 hmore).1⟩
        exact ⟨(hsends.1 hlast).1, (hsends.1 hlast).2.1⟩
      · have hstays := Bool.eq_false_iff.mpr hends
        rw [hstays, Bool.false_and]
        refine ⟨fun hc => Bool.noConfusion hc, fun _ => ?_⟩
        rw [stepLinea_silent config r s mem inbox i linea res hquiet hstays h]
        rfl

/-- The messages of a burst so far, with what its steps keep. -/
structure Rafaga.Lleva (pid : Int) (b : Rafaga) : Prop where
  libre : b.cpu.procesoBloqueado = false
  proceso : b.cpu.pcbActual.idProcess = pid
  lleva : ∀ mensaje ∈ b.mensajes, LlevaPcb pid mensaje

/-- A step of one of the three kinds adds a message, and no other does. -/
theorem rafaga_step (config : Config) (pid : Int) (b b' : Rafaga) (e : Entorno)
    (hb : b.Lleva pid) (h : b.step config e = some b') :
    b'.Lleva pid ∧ b'.mensajes.length = b.mensajes.length + b.cpu.entrega.toNat := by
  rcases rafaga_paso config b b' e h with ⟨hespera, res, hres, rfl⟩
  rcases step_sends config _ b.cpu _ _ res hespera hb.libre hres with
    ⟨hlibre, hpid, hsends, hquiet⟩
  cases hentrega : b.cpu.entrega with
  | false =>
      rw [hquiet hentrega]
      exact ⟨⟨hlibre, hpid.trans hb.proceso, hb.lleva⟩, rfl⟩
  | true =>
      -- The message sent carries the process, and so does every one before it.
      rcases hsends hentrega with ⟨hsent, hlleva⟩
      rw [hsent]
      refine ⟨⟨hlibre, hpid.trans hb.proceso, fun mensaje hmem => ?_⟩, ?_⟩
      · rcases List.mem_append.mp hmem with hold | hnew
        · exact hb.lleva mensaje hold
        · rw [List.mem_singleton.mp hnew, ← hb.proceso]
          exact hlleva
      · exact List.length_append

/-- When every message carries the block, one alone does when there is one message. -/
theorem unaEntrega_iff (pid : Int) (mensajes : List (List Packet))
    (hall : ∀ mensaje ∈ mensajes, LlevaPcb pid mensaje) :
    UnaEntrega pid mensajes ↔ mensajes.length = 1 := by
  constructor
  · rintro ⟨antes, mensaje, despues, rfl, _, hothers⟩
    -- Any other message would be one that carries the block.
    have hnone : antes ++ despues = [] := by
      rw [List.eq_nil_iff_forall_not_mem]
      intro otro hotro
      refine hothers otro hotro (hall otro ?_)
      rw [List.mem_append, List.mem_cons]
      rcases List.mem_append.mp hotro with hantes | hdespues
      · exact .inl hantes
      · exact .inr (.inr hdespues)
    rcases List.append_eq_nil_iff.mp hnone with ⟨rfl, rfl⟩
    rfl
  · intro hone
    rcases List.length_eq_one_iff.mp hone with ⟨mensaje, rfl⟩
    exact ⟨[], mensaje, [], rfl, hall mensaje (List.mem_singleton_self mensaje), fun otro hotro =>
      absurd hotro List.not_mem_nil⟩

/-! ### How a burst ends -/

/-- A burst of a process that has been marked as ended goes on to the end of the line. -/
theorem acabado_step (config : Config) (b b' : Rafaga) (e : Entorno) (hb : b.cpu.Acabado)
    (h : b.step config e = some b') : b'.cpu.Acabado := by
  rcases rafaga_paso config b b' e h with ⟨hespera, res, hres, rfl⟩
  rcases hb with hc | ⟨hfin, hbucle⟩
  · rw [hespera] at hc
    exact Bool.noConfusion hc
  cases hcontrol : b.cpu.control with
  | espera =>
      rw [State.enEspera, hcontrol] at hespera
      exact Bool.noConfusion hespera
  | bucle i => exact absurd hcontrol (hbucle i)
  | compartida i sigue =>
      rcases step_compartida_cases config _ b.cpu _ _ res i sigue hcontrol hres with
        ⟨packet, rest, _, rfl⟩
      exact .inr ⟨hfin, fun j hj => Control.noConfusion hj⟩
  | linea i linea =>
      rw [step_linea config _ b.cpu _ _ i linea hcontrol] at hres
      by_cases hcall : linea.callsKernel = true
      · rcases stepLinea_kernel config e.residue b.cpu e.memoria e.inbox i linea res hcall hres with
          ⟨_, _, hsame, hgoes⟩
        exact .inr ⟨hsame.trans hfin, hgoes⟩
      -- The flag is cleared at the end of the line, and the burst with it.
      rcases stepLinea_cases config e.residue b.cpu e.memoria e.inbox i linea res
          (Bool.eq_false_iff.mpr hcall) hres with
        ⟨_, _, ⟨linea', hlinea⟩, hflag⟩ | ⟨_, _, hend | ⟨_, _, hclear, _⟩⟩
      · refine .inr ⟨?_, fun j hj => Control.noConfusion (hlinea.symm.trans hj)⟩
        rcases hflag with ⟨_, hsame⟩ | ⟨hset, _⟩
        · exact hsame.trans hfin
        · exact hset
      · refine .inl ?_
        simp only [State.enEspera, hend]
      · rw [hfin] at hclear
        exact Bool.noConfusion hclear

theorem acabado_agota (s : State) (hs : s.Acabado) : s.agota = false := by
  unfold State.agota
  cases hcontrol : s.control with
  | bucle i =>
      rcases hs with hespera | ⟨_, hbucle⟩
      · rw [State.enEspera, hcontrol] at hespera
        exact Bool.noConfusion hespera
      · exact absurd hcontrol (hbucle i)
  | _ => rfl

/-- The step that finds the quantum used up is the last one. -/
theorem agota_step (config : Config) (b b' : Rafaga) (e : Entorno) (hb : b.cpu.agota = true)
    (h : b.step config e = some b') : b'.cpu.enEspera = true := by
  rcases rafaga_paso config b b' e h with ⟨_, res, hres, rfl⟩
  unfold State.agota at hb
  cases hcontrol : b.cpu.control with
  | bucle i =>
      simp only [hcontrol, Bool.not_eq_true'] at hb
      rcases (step_bucle_cases config _ b.cpu _ _ res i hcontrol hres).2 with
        ⟨hseguir, _⟩ | ⟨_, _, hstate, _⟩
      · rw [hb] at hseguir
        exact Bool.noConfusion hseguir
      · rw [hstate]
        rfl
  | _ =>
      rw [hcontrol] at hb
      exact Bool.noConfusion hb

/-- The last return marks the process as ended. -/
theorem cierra_step (config : Config) (b b' : Rafaga) (e : Entorno) (hb : b.cpu.cierra = true)
    (h : b.step config e = some b') : b'.cpu.Acabado := by
  rcases rafaga_paso config b b' e h with ⟨_, res, hres, rfl⟩
  rw [State.cierra, Bool.and_eq_true, decide_eq_true_eq] at hb
  unfold State.regresa at hb
  cases hcontrol : b.cpu.control with
  | linea i linea =>
      rw [hcontrol] at hb
      rw [step_linea config _ b.cpu _ _ i linea hcontrol] at hres
      rcases stepLinea_ends config _ b.cpu _ _ i linea res hb.1 hres with
        ⟨conn, s', hfin, _, hflag⟩
      have hends := (finalizar_sends _ { b.cpu with conn := conn } s' res.sent hfin).1 hb.2
      refine .inr ⟨hflag.trans hends.2.2, fun j hj => ?_⟩
      -- After the return there is the rest of the line, never the head of the loop.
      cases linea with
      | retornar retorno sigue =>
          rw [stepLinea, Option.map_eq_some_iff] at hres
          rcases hres with ⟨_, -, rfl⟩
          exact Control.noConfusion hj
      | finalizar sigue =>
          rw [stepLinea, Option.map_eq_some_iff] at hres
          rcases hres with ⟨_, -, rfl⟩
          exact Control.noConfusion hj
      | _ => exact Bool.noConfusion hb.1
  | _ =>
      rw [hcontrol] at hb
      exact Bool.noConfusion hb.1

/-- The three kinds of steps are different ones. -/
theorem agota_excludes (s : State) (hs : s.agota = true) :
    s.llamaKernel = false ∧ s.cierra = false := by
  unfold State.agota at hs
  cases hcontrol : s.control with
  | bucle i =>
      simp only [State.llamaKernel, State.cierra, State.regresa, hcontrol, Bool.false_and,
        and_self]
  | _ =>
      rw [hcontrol] at hs
      exact Bool.noConfusion hs

theorem llamaKernel_excludes (s : State) (hs : s.llamaKernel = true) : s.cierra = false := by
  unfold State.llamaKernel at hs
  cases hcontrol : s.control with
  | linea i linea =>
      rw [hcontrol] at hs
      have hends : linea.ends = false := by
        cases linea with
        | retornar _ _ => exact Bool.noConfusion hs
        | finalizar _ => exact Bool.noConfusion hs
        | _ => rfl
      simp only [State.cierra, State.regresa, hcontrol, hends, Bool.false_and]
  | _ =>
      rw [hcontrol] at hs
      exact Bool.noConfusion hs

/-- A burst finds the quantum used up once at most, and then no last return was in it. -/
theorem agota_tally (config : Config) (b b' : Rafaga) (entornos : List Entorno)
    (hrun : run (Rafaga.step config) b entornos = some b') :
    tally (Rafaga.step config) (fun b => b.cpu.agota) b entornos = 0 ∨
      tally (Rafaga.step config) (fun b => b.cpu.agota) b entornos = 1 ∧
        tally (Rafaga.step config) (fun b => b.cpu.cierra) b entornos = 0 := by
  induction entornos generalizing b with
  | nil => exact .inl rfl
  | cons e entornos ih =>
      rcases (run_cons _ b b' e entornos).mp hrun with ⟨u, hu, hrest⟩
      rw [tally_cons _ _ b u e entornos hu, tally_cons _ _ b u e entornos hu]
      -- Nothing is taken from where the CPU waits, and the quantum is not tested again in a
      -- process that has ended.
      have hacabado : u.cpu.Acabado →
          tally (Rafaga.step config) (fun b => b.cpu.agota) u entornos = 0 :=
        tally_eq_zero _ _ (fun b => b.cpu.Acabado) (fun b e u => acabado_step config b u e)
          (fun b => acabado_agota b.cpu) u entornos
      by_cases hagota : b.cpu.agota = true
      · have hespera := agota_step config b u e hagota hu
        have hnone : tally (Rafaga.step config) (fun b => b.cpu.cierra) u entornos = 0 := by
          refine tally_eq_zero _ _ (fun b => b.cpu.enEspera = true) (fun b e u hb hstep => ?_)
            (fun b hb => ?_) u entornos hespera
          · have hnot := (rafaga_paso config b u e hstep).1
            rw [hb] at hnot
            exact Bool.noConfusion hnot
          · unfold State.enEspera at hb
            cases hcontrol : b.cpu.control with
            | espera => simp only [State.cierra, State.regresa, hcontrol, Bool.false_and]
            | _ =>
                rw [hcontrol] at hb
                exact Bool.noConfusion hb
        refine .inr ?_
        rw [hacabado (.inl hespera), hnone, hagota, (agota_excludes b.cpu hagota).2]
        exact ⟨rfl, rfl⟩
      · have hgoes := Bool.eq_false_iff.mpr hagota
        rw [hgoes, Bool.toNat_false, Nat.zero_add]
        by_cases hcierra : b.cpu.cierra = true
        · exact .inl (hacabado (cierra_step config b u e hcierra hu))
        · rw [Bool.eq_false_iff.mpr hcierra, Bool.toNat_false, Nat.zero_add]
          exact ih u hrest

set_option maxRecDepth 4000

/-- Two variables fit the stack of the process, and its first line defines three. -/
def overflowConfig : Config :=
  { callConfig with
    parser := { callConfig.parser with
      analizadorLinea := fun _ => .definirVariable 97 fun _ => .definirVariable 98 fun _ =>
        .definirVariable 99 fun _ => .fin } }

/-- The stack overflows: the burst is over, and no message has been sent. -/
theorem overflow_sends_nothing : ∃ b,
    run (Rafaga.step overflowConfig) (Rafaga.init (mainStart 0).cpu)
      (List.replicate 5 { residue := callResidue, memoria := mainServer, inbox := [] }) = some b ∧
    b.cpu.enEspera = true ∧ ¬ UnaEntrega 1 b.mensajes := by
  refine ⟨_, rfl, rfl, ?_⟩
  rintro ⟨antes, mensaje, despues, hnil, _⟩
  exact List.append_ne_nil_of_right_ne_nil antes (List.cons_ne_nil mensaje despues) hnil.symm

/-- At any point of a burst, its end included, one message with the control block of the
    process has been sent exactly when the quantum has been found used up and no function of
    the kernel was called, or it has not and there was one call of the kernel or one last
    return, and not both. -/
theorem one_handback_iff (config : Config) (s : State) (entornos : List Entorno) (b : Rafaga)
    (hrun : run (Rafaga.step config) (Rafaga.init s) entornos = some b) :
    UnaEntrega s.pcbActual.idProcess b.mensajes ↔
      tally (Rafaga.step config) (fun b => b.cpu.agota) (Rafaga.init s) entornos = 1 ∧
        tally (Rafaga.step config) (fun b => b.cpu.llamaKernel) (Rafaga.init s) entornos = 0 ∨
      tally (Rafaga.step config) (fun b => b.cpu.agota) (Rafaga.init s) entornos = 0 ∧
        tally (Rafaga.step config) (fun b => b.cpu.llamaKernel) (Rafaga.init s) entornos +
          tally (Rafaga.step config) (fun b => b.cpu.cierra) (Rafaga.init s) entornos = 1 := by
  have hstart : (Rafaga.init s).Lleva s.pcbActual.idProcess :=
    ⟨rfl, rfl, fun mensaje hmem => absurd hmem List.not_mem_nil⟩
  have hlleva := run_invariant (Rafaga.step config) (Rafaga.Lleva s.pcbActual.idProcess)
    (fun b e u hb hstep => (rafaga_step config _ b u e hb hstep).1) _ b entornos hstart hrun
  have hcount := run_measure (Rafaga.step config) (fun b => b.cpu.entrega)
    (Rafaga.Lleva s.pcbActual.idProcess) (fun b => b.mensajes.length)
    (fun b e u hb hstep => rafaga_step config _ b u e hb hstep) _ b entornos hstart hrun
  have hthree := tally_or (Rafaga.step config) (fun b => b.cpu.llamaKernel || b.cpu.cierra)
    (fun b => b.cpu.agota) (fun b hb => ?_) (Rafaga.init s) entornos
  · have htwo := tally_or (Rafaga.step config) (fun b => b.cpu.llamaKernel)
      (fun b => b.cpu.cierra) (fun b hb => llamaKernel_excludes b.cpu hb) (Rafaga.init s) entornos
    have hzero : (Rafaga.init s).mensajes.length = 0 := rfl
    have hentrega : tally (Rafaga.step config) (fun b => b.cpu.entrega) (Rafaga.init s) entornos
        = tally (Rafaga.step config) (fun b => (b.cpu.llamaKernel || b.cpu.cierra) || b.cpu.agota)
            (Rafaga.init s) entornos := rfl
    -- Three kinds of steps, one message each.
    have hends := agota_tally config (Rafaga.init s) b entornos hrun
    rw [unaEntrega_iff _ _ hlleva.lleva]
    omega
  · cases hagota : b.cpu.agota with
    | false => rfl
    | true =>
        rcases agota_excludes b.cpu hagota with ⟨hllama, hcierra⟩
        rw [hllama, hcierra] at hb
        exact Bool.noConfusion hb

/-- The main body that defines a variable and calls a function hands itself back once. -/
theorem one_handback_main : ∃ b,
    run (Rafaga.step mainConfig) (Rafaga.init (mainStart 0).cpu)
      (List.replicate 12 { residue := callResidue, memoria := mainServer, inbox := [] }) = some b ∧
    b.cpu.enEspera = true ∧ UnaEntrega 1 b.mensajes :=
  ⟨_, rfl, rfl, (one_handback_iff mainConfig (mainStart 0).cpu
    (List.replicate 12 { residue := callResidue, memoria := mainServer, inbox := [] }) _
    rfl).mpr (.inr ⟨rfl, rfl⟩)⟩

end Cpu

end Esther
