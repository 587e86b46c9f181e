import Esther.Theory.Bursts

/-!
# Where a Process Goes On

Which instruction a process executes first after the kernel has had it.

A CPU hands a control block over in two places. When the quantum is used up it does so
at the test of the loop, after `PC++`, and the program counter is at the instruction that
comes next. A wait or a signal does so from inside the instruction, and the program
counter is still at the wait. Whoever receives the block starts a burst by fetching the
instruction at the program counter, so the first kind would go on where it should; but
the kernel takes that message for the end of the process and never dispatches it again.
The second kind is dispatched again, and executes the wait a second time.

## Main definitions

* `State.handingBack`: The instruction that should be next.
* `ContextSwitch`: A hand-back, and the burst it leads to.

## Theorems

* `switch_repeats`: The burst starts at the instruction that was executed last.
* `wait_executed_twice`: A run in which a wait is the first instruction after itself.
-/

namespace Esther

namespace System

open Cells Serial Transition

/-- The instruction that follows, in program order, the last one a CPU has executed, if the
    CPU is about to hand its process to the kernel. At the test of the loop the program
    counter has been advanced, and inside a line it has not. -/
def State.handingBack (s : State) (fd : Int) : Option Int :=
  match s.cpus fd with
  | some cpu => match cpu.control with
    | .bucle i => if Cpu.seguirEjecutando cpu.pcbActual i then none else some cpu.pcbActual.PC
    | .linea _ (.signal _ _) => some (cpu.pcbActual.PC + 1)
    | .linea _ (.wait _ _) => some (cpu.pcbActual.PC + 1)
    | _ => none
  | none => none

/-- The instruction a CPU at the test of its loop is about to execute. -/
def State.nextInstruction (s : State) (fd : Int) : Option Int :=
  match s.cpus fd with
  | some cpu => match cpu.control with
    | .bucle _ => some cpu.pcbActual.PC
    | _ => none
  | none => none

/-- A CPU waits for a message of the kernel. -/
def State.idle (s : State) (fd : Int) : Bool :=
  match s.cpus fd with
  | some cpu => match cpu.control with
    | .espera => true
    | _ => false
  | none => false

/-- The system gets from one state to another. -/
def Reaches (config : Config) (s t : State) : Prop := ∃ es, run (step config) s es = some t

/-- A CPU hands its process to the kernel, the control block being in `packet`. -/
def HandsOver (config : Config) (s u : State) (fd next : Int) (packet : Packet) : Prop :=
  s.handingBack fd = some next ∧ ∃ r sent, step config s (.cpu r fd) = some u
    ∧ u.outbox fd = s.outbox fd ++ packet :: sent

/-- The kernel reads the packet and keeps the process, as `pcb`, to go on later. -/
def Keeps (config : Config) (s u : State) (packet : Packet) (pcb : Pcb) : Prop :=
  ∃ r cpu rest, s.outbox cpu.clientID = packet :: rest ∧ step config s (.syscall r cpu) = some u
    ∧ pcb = Kernel.syscallPcb r packet ∧ pcb ∈ u.kernel.pcbReady ++ u.kernel.pcbBlock

/-- A scheduling round sends `pcb` to a CPU, in `packet`. -/
def Dispatches (config : Config) (s u : State) (pcb : Pcb) (fd : Int) (packet : Packet) : Prop :=
  ∃ r res, step config s (.kernel r (.planificacion res)) = some u ∧ pcb ∈ s.kernel.pcbReady
    ∧ Kernel.sendPcb r pcb = some packet ∧ packet ∈ u.kernel.wire fd

/-- A CPU that waits reads the packet. -/
def Starts (config : Config) (s u : State) (fd : Int) (packet : Packet) : Prop :=
  s.idle fd = true ∧ ∃ r rest, s.kernel.wire fd = packet :: rest
    ∧ step config s (.cpu r fd) = some u

/-- From a state on, a CPU hands a process over when `next` should be the next
    instruction, and the same control block is dispatched again later and read by the
    CPU at `fd`, which leads to `u`. -/
def ContextSwitch (config : Config) (s u : State) (fd next : Int) : Prop :=
  ∃ (s₁ u₁ s₂ u₂ s₃ u₃ s₄ : State) (cpu : Int) (sent packet : Packet) (pcb : Pcb),
    Reaches config s s₁ ∧ HandsOver config s₁ u₁ cpu next sent
      ∧ Reaches config u₁ s₂ ∧ Keeps config s₂ u₂ sent pcb
      ∧ Reaches config u₂ s₃ ∧ Dispatches config s₃ u₃ pcb fd packet
      ∧ Reaches config u₃ s₄ ∧ Starts config s₄ u fd packet

/-- What is handed over ends the process, or is a semaphore operation whose control block
    is one instruction behind. -/
theorem handsOver_cases (config : Config) (s u : State) (fd next : Int) (packet : Packet)
    (h : HandsOver config s u fd next packet) :
    packet.header.opcode = .OP_CPU_PROGRAM_END
      ∨ (packet.header.opcode = .OP_CPU_SEMAPHORE
        ∧ ∃ pcb, CarriesPcb packet pcb ∧ pcb.PC = next - 1) := by
  rcases h with ⟨hnext, r, sent, hstep, houtbox⟩
  rcases stepCpu_cases config s u r fd hstep with ⟨cpu, res, hcpu, hres, rfl⟩
  have hsent : res.sent = packet :: sent := by
    simp only [State.stepped, Function.update_self] at houtbox
    exact List.append_cancel_left houtbox
  -- Both semaphore operations send the block as it was before the instruction was counted.
  have hsem : ∀ (letra : UInt8) (nombre : List UInt8),
      Cpu.syscallPackets r cpu.pcbActual .OP_CPU_SEMAPHORE letra nombre = some res.sent →
      some (cpu.pcbActual.PC + 1) = some next →
      packet.header.opcode = .OP_CPU_SEMAPHORE
        ∧ ∃ pcb, CarriesPcb packet pcb ∧ pcb.PC = next - 1 := by
    intro letra nombre hpackets hPC
    rcases Cpu.syscallPackets_carries r _ _ _ _ _ hpackets with ⟨p, name, hlist, hop, hcarries⟩
    rw [hsent, List.cons.injEq] at hlist
    rw [Option.some.injEq] at hPC
    rw [hlist.1]
    exact ⟨hop, cpu.pcbActual, hcarries, by omega⟩
  unfold State.handingBack at hnext
  simp only [hcpu] at hnext
  cases hcontrol : cpu.control with
  | espera => simp [hcontrol] at hnext
  | compartida i sigue => simp [hcontrol] at hnext
  | bucle i =>
      refine Or.inl ?_
      rcases Cpu.step_bucle_cases config.cpu r cpu _ _ res i hcontrol hres with
        ⟨-, ⟨-, hnone, -⟩ | ⟨-, -, -, ⟨-, hnone⟩ | ⟨p, hone, hback⟩⟩⟩
      · rw [hsent] at hnone
        exact absurd hnone (by simp)
      · rw [hsent] at hnone
        exact absurd hnone (by simp)
      · rw [hsent, List.cons.injEq] at hone
        rw [hone.1]
        exact hback.1
  | linea i linea =>
      rw [Cpu.step_linea config.cpu r cpu _ _ i linea hcontrol] at hres
      cases linea with
      | signal identificador sigue =>
          simp only [hcontrol] at hnext
          simp only [Cpu.stepLinea, Option.map_eq_some_iff] at hres
          rcases hres with ⟨sent', hsignal, rfl⟩
          exact Or.inr (hsem _ _ hsignal hnext)
      | wait identificador sigue =>
          simp only [hcontrol] at hnext
          simp only [Cpu.stepLinea, Option.map_eq_some_iff] at hres
          rcases hres with ⟨sent', hwait, rfl⟩
          exact Or.inr (hsem _ _ hwait hnext)
      | _ => simp [hcontrol] at hnext

/-- The kernel keeps no process whose message says that it has ended. -/
theorem not_keeps_programEnd (config : Config) (s u : State) (packet : Packet) (pcb : Pcb)
    (hop : packet.header.opcode = .OP_CPU_PROGRAM_END) : ¬ Keeps config s u packet pcb := by
  rintro ⟨r, cpu, rest, houtbox, hstep, rfl, hkept⟩
  rcases stepSyscall_cases config s u r cpu hstep with
    ⟨packet', siguientes, kernel, rest', houtbox', hsys, rfl⟩
  rw [houtbox, List.cons.injEq] at houtbox'
  rcases houtbox' with ⟨rfl, rfl⟩
  rw [Kernel.gestionSyscall_programEnd config.kernel s.kernel r cpu packet rest hop,
    Option.some.injEq, Prod.mk.injEq] at hsys
  rcases hsys with ⟨rfl, -⟩
  rcases Kernel.endProgram_eq (s.kernel.leaveExec (Kernel.syscallPid r packet)) r
    (Kernel.syscallPcb r packet) Kernel.exitSuccessful with ⟨w, heq⟩
  -- The end of a program takes its process out of every queue.
  have hgone : ∀ queue, Kernel.syscallPcb r packet
      ∉ Kernel.removePid (Kernel.syscallPcb r packet).idProcess queue := by
    intro queue hmem
    have hne := (List.mem_filter.mp hmem).2
    simp at hne
  simp only [Kernel.State.restoreCPU, heq] at hkept
  rcases List.mem_append.mp hkept with hready | hblock
  · exact hgone _ hready
  · exact hgone _ hblock

/-- A burst starts at what a field carries of the program counter it was dispatched with. -/
theorem starts_at (config : Config) (s u : State) (fd : Int) (packet : Packet) (pcb : Pcb)
    (hop : packet.header.opcode = .OP_KE_SEND_PCB) (hcarries : CarriesPcb packet pcb)
    (h : Starts config s u fd packet) : u.nextInstruction fd = some (toShort pcb.PC) := by
  rcases h with ⟨hidle, r, rest, hwire, hstep⟩
  rcases stepCpu_cases config s u r fd hstep with ⟨cpu, res, hcpu, hres, rfl⟩
  -- An idle processor waits for a packet, which is this one.
  have hcontrol : cpu.control = .espera := by
    unfold State.idle at hidle
    simp only [hcpu] at hidle
    cases hcontrol : cpu.control with
    | espera => rfl
    | _ => simp [hcontrol] at hidle
  rcases Cpu.step_espera_cases config.cpu r cpu _ _ res hcontrol hres with
    ⟨packet', hinbox, -, -, hcase⟩
  rw [hwire, List.cons.injEq] at hinbox
  rcases hinbox with ⟨rfl, -⟩
  rcases hcase with ⟨-, hstate⟩ | hquantum | ⟨hother, -⟩
  · unfold State.nextInstruction
    simp only [State.stepped, Function.update_self, hstate, Cpu.ejecutarPrograma]
    rw [carries_PC packet pcb _ hcarries]
  · rw [hop] at hquantum
    exact absurd hquantum (by simp)
  · exact absurd hop hother

/-- A field never carries the successor of what it carries a value as. -/
theorem toShort_pred_ne (v : Int) : toShort (v - 1) ≠ v := by
  intro h
  have hmod : toShort (v - 1) % 2 ^ 16 = (v - 1) % 2 ^ 16 := by
    unfold toShort
    exact Int.bmod_emod
  rw [h] at hmod
  omega

/-- After a context switch the next burst does not start at the instruction that follows
    the last one executed. It starts at that last instruction, as far as a field carries
    its position. -/
theorem switch_repeats (config : Config) (multipgLevel memfd : Int) (semInit : List Int)
    (shared : Nat) (memoria : Memoria.ServerState) (memoriaConn : Memoria.Connection) (u : State)
    (fd next : Int)
    (h : ContextSwitch config (init multipgLevel memfd semInit shared memoria memoriaConn) u fd
      next) :
    u.nextInstruction fd = some (toShort (next - 1)) ∧ u.nextInstruction fd ≠ some next := by
  rcases h with ⟨s₁, u₁, s₂, u₂, s₃, u₃, s₄, cpu, sent, packet, pcb, -, hover, -, hkeeps, -,
    ⟨r, res, -, -, hsend, -⟩, -, hstarts⟩
  have hfirst : u.nextInstruction fd = some (toShort (next - 1)) := by
    rcases handsOver_cases config s₁ u₁ cpu next sent hover with hend | ⟨-, pcb₀, hcarries, hPC⟩
    · exact absurd hkeeps (not_keeps_programEnd config s₂ u₂ sent pcb hend)
    · rcases hkeeps with ⟨r', client, rest, -, -, rfl, -⟩
      rcases sendPcb_carries r _ packet hsend with ⟨hop, hcarries'⟩
      rw [starts_at config s₄ u fd packet _ hop hcarries' hstarts]
      -- The program counter has been through a field twice, which is as good as once.
      have honce : (Kernel.syscallPcb r' sent).PC = toShort pcb₀.PC :=
        carries_PC sent pcb₀ _ hcarries
      rw [honce, toShort_of_short _ (short_toShort _), hPC]
  refine ⟨hfirst, ?_⟩
  rw [hfirst, ne_eq, Option.some.injEq]
  exact toShort_pred_ne next

/-- Two CPUs, a semaphore of value 2, and a program that begins with a wait, up to the
    first call of the wait. -/
def untilWait : List Event :=
  [.kernel zeroKernel (.connectConsole 5), .connectCpu zeroKernel 6 freshClient,
    .connectCpu zeroKernel 7 freshClient,
    .kernel zeroKernel (.newProgram 5
      { header := protocolHeader .CONSOLE .OP_NEW_PROGRAM, payload := waitCode }),
    .kernel zeroKernel (.planificacion 1), .memoria (fun _ => 0) fun _ => 0,
    .memoria (fun _ => 0) fun _ => 0, .memoria (fun _ => 0) fun _ => 0,
    .memoria (fun _ => 0) fun _ => 0, .cpu zeroCpu 6, .cpu zeroCpu 6]

def twoCpus : State := init 3 4 [2] 0 freshServer freshClient

def beforeWait : State := ranTo twoCpus untilWait

def waitSent : State := ranTo beforeWait [.cpu zeroCpu 6]

def waitGranted : State := ranTo waitSent [.syscall zeroKernel sampleCpu]

def redispatched : State := ranTo waitGranted [.kernel zeroKernel (.planificacion 1)]

def resumed : State := ranTo redispatched [.cpu zeroCpu 7]

/-- The control block inside the wait. -/
def waitingPcb : Pcb :=
  { idProcess := 1, PC := 0, quantum := 0, status := 0, pagesCode := 2,
    indexCode := [{ start := 0, offset := 4 }, { start := 4, offset := 4 }], instructions := 2,
    indexTag := [], tags := 0, stack := [], stackPointer := 0, exitCode := 0 }

/-- The name of the semaphore, behind the letter of the wait. -/
def waitName : Packet :=
  { header := protocolHeader .CPU .OP_CPU_SEMAPHORE, payload := [119, 115] }

theorem sendPcb_taken : (Kernel.sendPcb zeroKernel waitingPcb).isSome := by
  set_option maxRecDepth 2000 in decide

/-- A single step that can be taken leads where the run does. -/
theorem step_ranTo (s : State) (e : Event) (h : (run (step waitConfig) s [e]).isSome = true) :
    step waitConfig s e = some (ranTo s [e]) := by
  rcases (run_cons (step waitConfig) s _ e []).mp (run_ranTo s [e] h) with ⟨u, hstep, hrun⟩
  rw [run_nil] at hrun
  rw [hstep, hrun]

/-- The wait is granted at once, and the other CPU gets the process. -/
theorem sampleSwitch : ContextSwitch waitConfig twoCpus resumed 7 1 := by
  have hstay : ∀ s, Reaches waitConfig s s := fun s => ⟨[], rfl⟩
  have hpcb : Kernel.syscallPcb zeroKernel (Kernel.pcbMessage .OP_CPU_SEMAPHORE waitingPcb)
      = waitingPcb := by decide +kernel
  refine ⟨beforeWait, waitSent, waitSent, waitGranted, waitGranted, redispatched, redispatched, 6,
    Kernel.pcbMessage .OP_CPU_SEMAPHORE waitingPcb,
    (Kernel.sendPcb zeroKernel waitingPcb).get sendPcb_taken, waitingPcb,
    ⟨untilWait, run_ranTo twoCpus untilWait (by decide +kernel)⟩, ⟨by decide +kernel, zeroCpu,
      [waitName], step_ranTo beforeWait _ (by decide +kernel), by decide +kernel⟩, hstay _,
    ⟨zeroKernel, sampleCpu, [waitName], by decide +kernel,
      step_ranTo waitSent _ (by decide +kernel), hpcb.symm, by decide +kernel⟩, hstay _,
    ⟨zeroKernel, 1, step_ranTo waitGranted _ (by decide +kernel), by decide +kernel,
      (Option.some_get sendPcb_taken).symm, by decide +kernel⟩, hstay _,
    ⟨by decide +kernel, zeroCpu, [], by decide +kernel,
      step_ranTo redispatched _ (by decide +kernel)⟩⟩

theorem sampleSwitch_repeats :
    resumed.nextInstruction 7 = some (toShort (1 - 1)) ∧ resumed.nextInstruction 7 ≠ some 1 :=
  switch_repeats waitConfig 3 4 [2] 0 freshServer freshClient resumed 7 1 sampleSwitch

/-- The wait at 0 is granted, and the next instruction executed is the wait at 0. -/
theorem wait_executed_twice :
    ¬ ∀ (config : Config) (multipgLevel memfd : Int) (semInit : List Int) (shared : Nat)
        (memoria : Memoria.ServerState) (memoriaConn : Memoria.Connection) (u : State)
        (fd next : Int),
      ContextSwitch config (init multipgLevel memfd semInit shared memoria memoriaConn) u fd next →
      u.nextInstruction fd = some next := by
  intro hall
  have hnext : resumed.nextInstruction 7 = some 1 :=
    hall waitConfig 3 4 [2] 0 freshServer freshClient resumed 7 1 sampleSwitch
  revert hnext
  decide +kernel

end System

end Esther
