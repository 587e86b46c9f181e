import Esther.Theory.Consoles
import Esther.Theory.Loading

/-!
# What the Memory Server Is Asked

The requests that each event makes the kernel send to the memory server, exactly.

Three operations concern pages: `OP_ME_INIPRO` and `OP_ME_ALMBYTPAG` when a program is
admitted, and `OP_ME_FINPRO` when `end_program` is called. `State.requested` is what has
been sent of them, and `traffic` what an event adds. Nothing is assumed about the other
descriptors, since no other packet has one of these operations.

That `kill` is not among the events with traffic is the point of some of what follows.

## Main definitions

* `isRequest`: The operations the memory server is asked for.
* `State.requested`: The requests sent.
* `traffic`: The requests an event adds.

## Theorems

* `requested_endProgram`: One `OP_ME_FINPRO` for a program that ends.
* `requested_serve`: The requests of one event.
-/

namespace Esther

namespace Kernel

open Cells Serial

/-- The operations the kernel asks the memory server for. -/
def isRequest (packet : Packet) : Bool :=
  packet.header.opcode == .OP_ME_INIPRO || packet.header.opcode == .OP_ME_ALMBYTPAG
    || packet.header.opcode == .OP_ME_FINPRO

/-- The requests that have been sent to the memory server. -/
def State.requested (k : State) : List Packet := (k.wire k.memfd).filter isRequest

/-- The request to free the pages of a program that has ended. -/
def finproPacket (r : Residue) (code pid : Int) : Packet :=
  packed r { protocolHeader .KERNEL .OP_ME_FINPRO with usrpid := byte pid } [.h code]

/-- The request for the pages of a program. -/
def iniproPacket (config : Config) (r : Residue) (pcb : Pcb) (code : List UInt8) : Packet :=
  packed r { protocolHeader .KERNEL .OP_ME_INIPRO with usrpid := byte pcb.idProcess }
    [.h (requestedPages config code.length)]

/-- There is room for one more process. -/
def State.hasRoom (k : State) : Bool :=
  decide ((k.pcbReady.length + k.pcbExec.length + k.pcbBlock.length : Int) < k.multipgLevel)

/-- The requests an event adds. -/
def traffic (config : Config) (k : State) (e : Residue × Event) : List Packet :=
  match e.2 with
  | .planificacion res => match k.pcbNew, k.codesMs with
    | pcb :: _, code :: _ =>
        if k.hasRoom then
          if res ≠ 0 then loadPackets config e.1 pcb code else [iniproPacket config e.1 pcb code]
        else []
    | _, _ => []
  | .syscall _ packet _ =>
      if packet.header.opcode = .OP_CPU_PROGRAM_END then
        [finproPacket e.1 exitSuccessful (syscallPid e.1 packet)]
      else []
  | .destroyConsole client => (doomed k client.pids).map (finproPacket e.1 exitConsoleKilled)
  | _ => []

section Sending

/-- Packets of other operations do not count, wherever they are sent. -/
theorem requested_send_other (k : State) (fd : Int) (packet : Packet)
    (h : isRequest packet = false) : (k.send fd packet).requested = k.requested := by
  unfold State.requested State.send
  by_cases hfd : k.memfd = fd
  · subst hfd
    simp only [Function.update_self, List.filter_append, List.filter_cons, h,
      Bool.false_eq_true, if_false, List.filter_nil, List.append_nil]
  · simp only [Function.update_of_ne hfd]

theorem requested_send_memory (k : State) (packet : Packet) (h : isRequest packet = true) :
    (k.send k.memfd packet).requested = k.requested ++ [packet] := by
  unfold State.requested State.send
  simp only [Function.update_self, List.filter_append, List.filter_cons, h, if_true,
    List.filter_nil]

/-- Ending a program sends one request, for its pages to be freed. -/
theorem requested_endProgram (k : State) (r : Residue) (pcb : Pcb) (code : Int) :
    (k.endProgram r pcb code).requested = k.requested ++ [finproPacket r code pcb.idProcess]
      ∧ (k.endProgram r pcb code).memfd = k.memfd := by
  simp only [State.endProgram]
  refine ⟨?_, ?_⟩
  · rw [requested_send_memory _ _ rfl]
    split
    · rw [requested_send_other _ _ _ rfl]
      rfl
    · rfl
  · split
    · rfl
    · rfl

/-- The loop over the programs of a console sends one for each that is ended. -/
theorem requested_endConsolePrograms (r : Residue) (k : State) (pids : List Int) :
    (endConsolePrograms r k pids).requested
      = k.requested ++ (doomed k pids).map (finproPacket r exitConsoleKilled) := by
  induction pids generalizing k with
  | nil => exact (List.append_nil _).symm
  | cons pid pids ih =>
      by_cases hends : k.ends pid
      · rcases endConsolePrograms_ends r k pid pids hends with ⟨pcb, hpid, hloop⟩
        -- Whether the others are ended does not depend on this one, but for itself.
        have hdoomed : doomed k (pid :: pids)
            = pid :: doomed (k.endProgram r pcb exitConsoleKilled) pids := by
          simp only [doomed, List.filter_cons_of_pos hends, List.cons.injEq, true_and]
          refine List.filter_congr fun other _ => ?_
          rw [ends_endProgram, hpid]
          by_cases hother : other = pid
          · simp [hother, hends]
          · simp [hother]
        rw [hloop, ih, (requested_endProgram k r pcb _).1, hdoomed, List.map_cons, hpid,
          List.append_assoc, List.singleton_append]
      · rw [endConsolePrograms_skips r k pid pids hends, ih, doomed, doomed,
          List.filter_cons_of_neg hends]

theorem isRequest_codePackets (config : Config) (r : Residue) (pcb : Pcb) (code : List UInt8)
    (n : Nat) (pag tam : Int) :
    (codePackets config r pcb code n pag tam).filter isRequest
      = codePackets config r pcb code n pag tam := by
  induction n generalizing pag tam with
  | zero => rfl
  | succ n ih =>
      simp only [codePackets]
      rw [List.filter_cons_of_pos rfl, List.filter_cons_of_pos rfl, ih]

theorem isRequest_loadPackets (config : Config) (r : Residue) (pcb : Pcb) (code : List UInt8) :
    (loadPackets config r pcb code).filter isRequest = loadPackets config r pcb code := by
  simp only [loadPackets]
  rw [List.filter_cons_of_pos rfl, List.filter_append, isRequest_codePackets,
    List.filter_cons_of_pos rfl, List.filter_cons_of_pos rfl, List.filter_nil]

/-- A control block is no request to the memory. -/
theorem isRequest_sendPcb (r : Residue) (pcb : Pcb) (packet : Packet)
    (h : sendPcb r pcb = some packet) : isRequest packet = false := by
  unfold sendPcb at h
  split at h
  · exact absurd h (by simp)
  · rw [Option.some.injEq] at h
    rw [← h]
    rfl

theorem requested_despachar (r : Residue) (k u : State) (ready : List Pcb) (cpus : List Client)
    (h : despachar r k ready cpus = some u) : u.requested = k.requested := by
  have hrule := despachar_rule r (fun v _ _ => v.requested = k.requested)
    (fun v pcb ready cpu cpus packet hpacket hv =>
      (requested_send_other { v with pcbReady := ready, cpuConectadas := cpus } cpu.clientID packet
        (isRequest_sendPcb r pcb packet hpacket)).trans hv)
    k u ready cpus rfl h
  rcases hrule with ⟨_, _, _, hsame⟩
  exact hsame

/-- An admission. -/
theorem requested_admitir (config : Config) (k u : State) (r : Residue) (res : Int)
    (h : admitir config k r res = some u) :
    u.requested = k.requested ++ traffic config k (r, .planificacion res) := by
  unfold traffic
  cases hnew : k.pcbNew with
  | nil =>
      simp only [admitir, hnew, Option.some.injEq] at h
      simp only [h, List.append_nil]
  | cons pcb pcbNew =>
      by_cases hroom : (k.pcbReady.length + k.pcbExec.length + k.pcbBlock.length : Int)
          < k.multipgLevel
      · cases hcodes : k.codesMs with
        | nil =>
            simp only [admitir, hnew, if_pos hroom, hcodes] at h
            exact absurd h (by simp)
        | cons code codesMs =>
            simp only [State.hasRoom, hroom, decide_true, if_true]
            by_cases hres : res = 0
            -- The program is announced and refused: nothing else is sent.
            · simp only [admitir, hnew, if_pos hroom, hcodes, hres] at h
              simp only [ne_eq, not_true_eq_false, if_false, Option.some.injEq] at h
              simp only [hres, ne_eq, not_true_eq_false, if_false]
              rw [← h]
              exact requested_send_memory { k with pcbNew := pcbNew, codesMs := codesMs }
                (iniproPacket config r pcb code) rfl
            -- Its pages follow.
            · rcases admitir_wire config k u r res pcb pcbNew code codesMs hnew hcodes hroom hres h
                with ⟨hmem, -, hwire⟩
              simp only [if_pos hres]
              unfold State.requested
              rw [hmem, hwire, List.filter_append, isRequest_loadPackets]
      · simp only [admitir, hnew, if_neg hroom, Option.some.injEq] at h
        have hfalse : k.hasRoom = false := by simpa [State.hasRoom] using hroom
        cases hcodes : k.codesMs with
        | nil => simp only [h, List.append_nil]
        | cons code codesMs =>
            simp only [hfalse, Bool.false_eq_true, if_false, List.append_nil]
            rw [h]

theorem requested_gestionDatosNewPcb (parser : Parser) (config : Config) (k u : State)
    (r : Residue) (program : Packet) (console : Int)
    (h : gestionDatosNewPcb parser config k r program console = some u) :
    u.requested = k.requested := by
  rcases gestionDatosNewPcb_eq parser config k u r program console h with ⟨pcb, _, _, _, rfl⟩
  exact requested_send_other k console _ rfl

/-- A message of a CPU sends a request only if it ends its process. -/
theorem requested_gestionSyscall (config : Config) (k u : State) (r : Residue) (cpu : Client)
    (packet : Packet) (siguientes rest : List Packet)
    (h : gestionSyscall config k r packet cpu siguientes = some (u, rest)) :
    u.requested = k.requested ++ traffic config k (r, .syscall cpu packet siguientes) := by
  by_cases hend : packet.header.opcode = .OP_CPU_PROGRAM_END
  · rw [gestionSyscall_programEnd config k r cpu packet siguientes hend, Option.some.injEq,
      Prod.mk.injEq] at h
    rw [← h.1]
    simp only [traffic, if_pos hend]
    exact (requested_endProgram (k.leaveExec (syscallPid r packet)) r (syscallPcb r packet) _).1
  · simp only [traffic, if_neg hend, List.append_nil]
    by_cases hshared : packet.header.opcode = .OP_CPU_SHARED_VAR
    · rcases gestionSyscall_sharedVar config k u r cpu packet siguientes rest hshared h with
        ⟨_, value, _, ⟨_, _, rfl⟩ | ⟨_, _, _, rfl⟩⟩
      -- The value goes to the CPU.
      · exact requested_send_other (k.leaveExec (syscallPid r packet)) cpu.clientID _ rfl
      · rfl
    · rcases gestionSyscall_cases config k u r cpu packet siguientes rest h with
        ⟨hop, -⟩ | ⟨-, packetSem, -, ⟨-, k₁, hsem, rfl⟩ | ⟨-, k₁, hsem, rfl⟩⟩
          | ⟨hop, -⟩ | ⟨-, -, -, rfl⟩
      · exact absurd hop hend
      · rcases semWait_cases _ _ _ _ hsem with ⟨_, _, -, -, ⟨-, rfl⟩ | ⟨-, rfl⟩⟩
        · rfl
        · rfl
      · rcases semSignal_cases _ _ _ _ _ hsem with ⟨_, _, _, _, -, -, -, rfl⟩
        rfl
      · exact absurd hop hshared
      · rfl

end Sending

/-- The requests of one event. -/
theorem requested_serve (parser : Parser) (config : Config) (k u : State) (e : Residue × Event)
    (h : k.serve parser config e = some u) :
    u.requested = k.requested ++ traffic config k e := by
  rcases e with ⟨r, event⟩
  cases event with
  | connectConsole fd =>
      obtain rfl := step_connectConsole parser config k u r fd h
      exact (List.append_nil _).symm
  | connectCpu fd =>
      obtain rfl := step_connectCpu parser config k u r fd h
      -- The size of the stack is sent to the CPU, and not to the memory server.
      refine (requested_send_other { k with
        cpuConectadas := k.cpuConectadas ++ [{ clientID := fd, process := .CPU, pids := [] }] }
        fd _ rfl).trans (List.append_nil _).symm
  | newProgram console program =>
      exact (requested_gestionDatosNewPcb parser config k u r program console h).trans
        (List.append_nil _).symm
  | planificacion res =>
      simp only [State.serve, State.step, planificacion] at h
      split at h
      · rename_i k₁ hadm
        rw [requested_despachar r k₁ u _ _ h]
        exact requested_admitir config k k₁ r res hadm
      · exact absurd h (by simp)
  | destroyConsole client =>
      obtain rfl := step_destroyConsole parser config k u r client h
      exact requested_endConsolePrograms r { k with
        consolasConectadas := k.consolasConectadas.filter fun elem =>
          !(elem.clientID == client.clientID) } client.pids
  | kill pid =>
      rcases step_kill parser config k u r pid h with ⟨-, rfl⟩
      exact (List.append_nil _).symm
  | syscall cpu packet siguientes =>
      rcases serve_syscall parser config k u r cpu packet siguientes h with ⟨rest, hsyscall⟩
      exact requested_gestionSyscall config k u r cpu packet siguientes rest hsyscall

end Kernel

end Esther
