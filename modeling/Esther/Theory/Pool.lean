import Esther.Lib.Pool
import Esther.Theory.Bursts
import Esther.Theory.Consoles

/-!
# The Pool of CPUs

Whether a connected CPU is on one of the kernel's two lists, once, and is sent a control
block only after it has handed the last one back.

A CPU is taken off `cpu_conectadas` when it is sent a control block, and `restoreCPU`
puts it back. `restoreCPU` is called for every message of a CPU and not for every burst:
the calls of the kernel's functions make the CPU free while it executes, and at the end
of the burst it is put on `cpu_conectadas` once more. Nothing takes a CPU whose
connection has ended off either list.

While neither happens, each message is the report of one burst, and the lists and what
the CPUs have are a `Pool.Sound` pool.

## Main definitions

* `State.places`: How many times the kernel has a CPU on its lists.
* `PoolOk`, `SendsWhenFree`: The integrity of the pool, for states and steps.
* `PoolKeeps`: A step with one report for each burst, and no disconnection.
* `State.load`, `Pooled`: What a CPU has not handed back, or has and is not yet read.

## Theorems

* `pooled_step`: The pool stays sound when a step meets the condition.
* `pool_along`: So its integrity lasts through every run of such steps.
* `cpu_registered_twice`: A run after which a CPU is on the list of free ones twice.
-/

namespace Esther

namespace System

open Cells Serial Transition

/-- The descriptors of some clients. -/
def ids (clients : List Kernel.Client) : List Int := clients.map Kernel.Client.clientID

/-- How many times the kernel has a CPU in `cpu_conectadas` and `cpu_executing`. -/
def State.places (s : State) (fd : Int) : Nat :=
  (ids s.kernel.cpuConectadas ++ ids s.kernel.cpuExecuting).count fd

/-- A CPU that is connected is on the lists once, no other is, and none has two control
    blocks it has not handed back. -/
structure PoolOk (s : State) : Prop where
  once : ∀ fd, s.cpus fd ≠ none → s.places fd = 1
  gone : ∀ fd, s.cpus fd = none → s.places fd = 0
  burst : ∀ fd, (s.holding fd).length ≤ 1

/-- Whoever is sent a control block by the step has handed back all it was sent before. -/
def SendsWhenFree (config : Config) (s : State) (e : PoolEvent) : Prop :=
  ∀ u, stepPool config s e = some u → ∀ fd,
    (pending (s.kernel.wire fd)).length < (pending (u.kernel.wire fd)).length → s.holding fd = []

/-- The process of the burst has been ended, and the next call would end it again. -/
def State.endsAgain (s : State) (fd : Int) : Bool :=
  match s.cpus fd with
  | some cpu => match cpu.control with
    | .linea _ linea => cpu.finPrograma && linea.ends
    | _ => false
  | none => false

/-- No CPU leaves, and what a CPU sends is the end of its burst, once. -/
def PoolKeeps (s : State) : PoolEvent → Prop
  | .step (.cpu _ fd) => s.calling fd = false ∧ s.endsAgain fd = false
  | .step _ => True
  | .disconnectCpu _ => False

instance decidablePoolKeeps (s : State) (e : PoolEvent) : Decidable (PoolKeeps s e) := by
  unfold PoolKeeps
  split <;> infer_instance

/-- The bursts a CPU has before it, or is in, or has reported in a message that the kernel
    has not read. -/
def State.load (s : State) (fd : Int) : Nat := (s.holding fd).length + (s.outbox fd).length

/-- The kernel's lists are a sound pool, and what is on its way to and from a CPU is what
    a burst begins and ends with. -/
structure Pooled (s : State) : Prop where
  pool : Pool.Sound (fun fd => s.cpus fd ≠ none) (ids s.kernel.cpuConectadas)
    (ids s.kernel.cpuExecuting) s.load
  wire : ∀ fd, ∀ packet ∈ s.kernel.wire fd, packet.header.opcode ≠ .OP_KE_SEND_QUANTUM
  outbox : ∀ fd, ∀ packet ∈ s.outbox fd, packet.header.opcode = .OP_CPU_PROGRAM_END
  absent : ∀ fd, s.cpus fd = none → s.outbox fd = []
  control : ∀ fd cpu, s.cpus fd = some cpu → ∀ i sigue, cpu.control ≠ .compartida i sigue

theorem poolOk_of_pooled (s : State) (h : Pooled s) : PoolOk s where
  once := h.pool.once
  gone := fun fd hfd => h.pool.gone fd (not_not.mpr hfd)
  burst := fun fd => (Nat.le_add_right _ _).trans (h.pool.single fd)

/-- What a CPU has when the kernel adds to what it has been sent. -/
theorem holding_sent (s : State) (u : Kernel.State) (fd : Int) (packets : List Packet)
    (h : u.wire fd = s.kernel.wire fd ++ packets) :
    (State.holding { s with kernel := u } fd).length
      = (s.holding fd).length + (pending packets).length := by
  unfold State.holding
  simp only [h, pending_append, List.length_append]
  omega

/-- What the kernel does to its queues and the consoles. -/
theorem pooled_quiet (s : State) (u : Kernel.State) (h : Pooled s) (hadds : Kernel.Adds s.kernel u)
    (hfree : u.cpuConectadas = s.kernel.cpuConectadas)
    (hbusy : u.cpuExecuting = s.kernel.cpuExecuting) : Pooled { s with kernel := u } where
  pool := by
    simp only [hfree, hbusy]
    refine Pool.sound_mono _ _ _ s.load _ h.pool fun fd => ?_
    rcases hadds fd with ⟨packets, hwire, hidle⟩
    unfold State.load
    rw [holding_sent s u fd packets hwire, pending_idle packets hidle]
    exact Nat.le_refl _
  wire := Kernel.adds_forall s.kernel u _ hadds h.wire fun _ hidle => hidle.2
  outbox := h.outbox
  absent := h.absent
  control := h.control

/-- One ready process goes to the first free CPU. -/
theorem pooled_dispatch (s : State) (r : Kernel.Residue) (pcb : Pcb) (cpu : Kernel.Client)
    (cpus : List Kernel.Client) (packet : Packet) (ready : List Pcb) (h : Pooled s)
    (hcpus : s.kernel.cpuConectadas = cpu :: cpus) (hsend : Kernel.sendPcb r pcb = some packet) :
    Pooled { s with kernel := { s.kernel with
      pcbReady := ready
      cpuConectadas := cpus
      wire := Function.update s.kernel.wire cpu.clientID (s.kernel.wire cpu.clientID ++ [packet])
      pcbExec := s.kernel.pcbExec ++ [pcb]
      cpuExecuting := s.kernel.cpuExecuting ++ [cpu] } } := by
  have hop := (sendPcb_carries r pcb packet hsend).1
  have hpool := h.pool
  rw [hcpus] at hpool
  refine ⟨?_, fun fd p hp => ?_, h.outbox, h.absent, h.control⟩
  · have hids : ids (s.kernel.cpuExecuting ++ [cpu]) = ids s.kernel.cpuExecuting ++ [cpu.clientID] :=
      List.map_append
    simp only [hids]
    refine Pool.sound_lend _ _ _ s.load _ cpu.clientID hpool ?_ fun fd hfd => ?_
    -- The control block is the one thing that is new on the wire.
    · unfold State.load
      rw [holding_sent s _ cpu.clientID [packet] (Function.update_self ..),
        pending_pcb packet [] hop]
      simp only [pending_nil, List.length_cons, List.length_nil]
      omega
    · unfold State.load State.holding
      simp only [Function.update_of_ne hfd]
  · by_cases hfd : fd = cpu.clientID
    · subst hfd
      simp only [Function.update_self, List.mem_append, List.mem_singleton] at hp
      rcases hp with hold | rfl
      · exact h.wire _ p hold
      · rw [hop]
        simp
    · simp only [Function.update_of_ne hfd] at hp
      exact h.wire fd p hp

/-- The second half of a scheduling round, one processor after another. -/
theorem pooled_despachar (s : State) (r : Kernel.Residue) (u : Kernel.State) (ready : List Pcb)
    (cpus : List Kernel.Client) (h : Pooled s) (hcpus : s.kernel.cpuConectadas = cpus)
    (hdesp : Kernel.despachar r s.kernel ready cpus = some u) : Pooled { s with kernel := u } := by
  have hrule := Kernel.despachar_rule r
    (fun k _ cpus => Pooled { s with kernel := k } ∧ k.cpuConectadas = cpus)
    (fun k pcb ready cpu cpus packet hsend hk =>
      ⟨pooled_dispatch { s with kernel := k } r pcb cpu cpus packet ready hk.1 hk.2 hsend, rfl⟩)
    s.kernel u ready cpus ⟨h, hcpus⟩ hdesp
  rcases hrule with ⟨_, _, _, hpooled, _⟩
  exact hpooled

theorem pooled_planificacion (config : Kernel.Config) (s : State) (u : Kernel.State)
    (r : Kernel.Residue) (res : Int) (h : Pooled s)
    (hplan : Kernel.planificacion config s.kernel r res = some u) :
    Pooled { s with kernel := u } := by
  rw [Kernel.planificacion] at hplan
  split at hplan
  · rename_i k₁ hadm
    -- An admission leaves the lists of processors alone.
    have hlists : k₁.cpuConectadas = s.kernel.cpuConectadas
        ∧ k₁.cpuExecuting = s.kernel.cpuExecuting := by
      rcases Kernel.admitir_cases config s.kernel k₁ r res hadm with
        rfl | ⟨_, _, _, _, -, -, -, ⟨-, w, rfl⟩ | ⟨-, w, rfl⟩⟩
      · exact ⟨rfl, rfl⟩
      · exact ⟨rfl, rfl⟩
      · exact ⟨rfl, rfl⟩
    have hfirst := pooled_quiet s k₁ h (Kernel.adds_admitir config s.kernel k₁ r res hadm)
      hlists.1 hlists.2
    have hrest := pooled_despachar _ r u _ _ hfirst rfl hplan
    exact hrest
  · exact absurd hplan (by simp)

theorem pooled_stepKernel (config : Config) (s u : State) (r : Kernel.Residue)
    (event : Kernel.Event) (h : Pooled s) (hstep : stepKernel config s r event = some u) :
    Pooled u := by
  rcases stepKernel_cases config s u r event hstep with ⟨kernel, hk, rfl, hconnect, hsyscall⟩
  cases event with
  | connectConsole fd =>
      obtain rfl := Kernel.step_connectConsole _ _ _ kernel r fd hk
      exact pooled_quiet s _ h (Kernel.adds_of_wire_eq _ _ rfl) rfl rfl
  | connectCpu fd => exact absurd rfl (hconnect fd)
  | newProgram console program =>
      have hadds := (Kernel.quiet_newProgram config.cpu.parser config.kernel s.kernel kernel r
        program console hk).wire
      rcases Kernel.gestionDatosNewPcb_cases config.cpu.parser config.kernel s.kernel kernel r
        program console hk with ⟨pcb, consolas, w, -, -, -, rfl⟩
      exact pooled_quiet s _ h hadds rfl rfl
  | planificacion res => exact pooled_planificacion config.kernel s kernel r res h hk
  | syscall cpu packet siguientes => exact absurd rfl (hsyscall cpu packet siguientes)
  | destroyConsole client =>
      obtain rfl := Kernel.step_destroyConsole _ _ _ kernel r client hk
      have hadds : Kernel.Adds s.kernel (Kernel.destroyConsole s.kernel r client) :=
        Kernel.adds_endConsolePrograms r _ client.pids
      rcases Kernel.destroyConsole_eq s.kernel r client with ⟨consolas, ended, f, w, heq, -⟩
      -- What it says to the memory server and the consoles, no CPU reads.
      exact pooled_quiet s _ h hadds (by rw [heq]) (by rw [heq])
  | kill pid =>
      rcases Kernel.step_kill _ _ _ kernel r pid hk with ⟨-, rfl⟩
      exact pooled_quiet s _ h (Kernel.adds_of_wire_eq _ _ rfl) rfl rfl

/-- A CPU that connects has nothing, and has sent nothing. -/
theorem pooled_stepConnect (config : Config) (s u : State) (r : Kernel.Residue) (fd : Int)
    (conn : Memoria.Connection) (h : Pooled s) (hstep : stepConnect config s r fd conn = some u) :
    Pooled u := by
  rcases stepConnect_cases config s u r fd conn hstep with ⟨hnone, rfl⟩
  refine ⟨?_, fun other packet hpacket => ?_, h.outbox, fun other hother => ?_,
    fun other cpu hcpu => ?_⟩
  · have hids : ids (s.kernel.cpuConectadas ++ [{ clientID := fd, process := .CPU, pids := [] }])
        = ids s.kernel.cpuConectadas ++ [fd] := List.map_append
    -- The descriptor was not in the pool, and it comes in with no load.
    simp only [hids]
    refine Pool.sound_join _ _ _ _ s.load _ fd h.pool (not_not.mpr hnone) (fun other => ?_) ?_
      fun other hne => ?_
    · by_cases hne : other = fd
      · simp [hne]
      · simp only [Function.update_of_ne hne, hne, or_false]
    · unfold State.load State.holding
      simp only [Function.update_self, h.absent fd hnone, pending_nil, running, Cpu.State.init,
        List.append_nil, List.length_nil]
    · unfold State.load State.holding
      simp only [Function.update_of_ne hne]
  · exact h.wire other packet
      (mem_update_suffix _ fd (s.kernel.wire fd) [] (List.append_nil _).symm other packet hpacket)
  · exact h.absent other (cpus_update_none s.cpus fd other _ hother).2
  · rcases cpus_update s.cpus fd other _ cpu hcpu with rfl | hold
    · simp [Cpu.State.init]
    · exact h.control other cpu hold

/-- The kernel reads the end of a burst, and the CPU is free. -/
theorem pooled_stepSyscall (config : Config) (s u : State) (r : Kernel.Residue)
    (cpu : Kernel.Client) (h : Pooled s) (hstep : stepSyscall config s r cpu = some u) :
    Pooled u := by
  have hclient : cpu ∈ s.kernel.cpuConectadas ++ s.kernel.cpuExecuting := by
    unfold stepSyscall at hstep
    split at hstep
    · assumption
    · exact absurd hstep (by simp)
  have hlisted : cpu.clientID ∈ ids s.kernel.cpuConectadas ++ ids s.kernel.cpuExecuting := by
    unfold ids
    rw [← List.map_append]
    exact List.mem_map_of_mem hclient
  rcases stepSyscall_cases config s u r cpu hstep with
    ⟨packet, siguientes, kernel, rest, houtbox, hsys, rfl⟩
  have hop : packet.header.opcode = .OP_CPU_PROGRAM_END :=
    h.outbox cpu.clientID packet (houtbox ▸ List.mem_cons_self)
  -- The report is all the CPU has: it waits for the next control block.
  have hload : s.load cpu.clientID ≠ 0 ∧ (s.holding cpu.clientID).length = 0
      ∧ siguientes.length = 0 := by
    have hle := h.pool.single cpu.clientID
    unfold State.load at hle ⊢
    rw [houtbox, List.length_cons] at hle ⊢
    omega
  rw [Kernel.gestionSyscall_programEnd config.kernel s.kernel r cpu packet siguientes hop,
    Option.some.injEq, Prod.mk.injEq] at hsys
  rcases hsys with ⟨hu, rfl⟩
  have hadds : Kernel.Adds s.kernel kernel := by
    rw [← hu]
    exact Kernel.adds_endProgram (s.kernel.leaveExec (Kernel.syscallPid r packet)) r _ _
  have hholding : ∀ fd, (State.holding { s with kernel := kernel } fd).length
      = (s.holding fd).length := by
    intro fd
    rcases hadds fd with ⟨packets, hwire, hidle⟩
    rw [holding_sent s kernel fd packets hwire, pending_idle packets hidle]
    rfl
  refine ⟨?_, Kernel.adds_forall s.kernel kernel _ hadds h.wire fun _ hidle => hidle.2,
    fun fd p hp => ?_, fun fd hfd => ?_, h.control⟩
  · rcases Kernel.endProgram_eq (s.kernel.leaveExec (Kernel.syscallPid r packet)) r
      (Kernel.syscallPcb r packet) Kernel.exitSuccessful with ⟨w, heq⟩
    have hfree : ids kernel.cpuConectadas = ids s.kernel.cpuConectadas ++ [cpu.clientID] := by
      rw [← hu, heq]
      exact List.map_append
    have hbusy : ids kernel.cpuExecuting
        = (ids s.kernel.cpuExecuting).filter fun fd => !(fd == cpu.clientID) := by
      unfold ids
      rw [← hu, heq, List.filter_map]
      rfl
    simp only [hfree, hbusy]
    refine Pool.sound_report _ _ _ s.load _ cpu.clientID h.pool hlisted hload.1 ?_ fun fd hfd => ?_
    · have hnone := (hholding cpu.clientID).trans hload.2.1
      unfold State.load
      simp only [State.holding, Function.update_self] at hnone ⊢
      omega
    · have hsame := hholding fd
      unfold State.load
      simp only [State.holding, Function.update_of_ne hfd] at hsame ⊢
      omega
  · have hmem := mem_update_suffix s.outbox cpu.clientID [packet] siguientes houtbox fd p hp
    exact h.outbox fd p hmem
  · have hempty := h.absent fd hfd
    by_cases heq : fd = cpu.clientID
    · rw [heq, houtbox] at hempty
      exact absurd hempty (List.cons_ne_nil _ _)
    · simp only [Function.update_of_ne heq]
      exact hempty

/-- Packets are taken off the front of a wire. -/
theorem pooled_stepMemoria (s u : State) (heap heapData : Buf) (h : Pooled s)
    (hstep : stepMemoria s heap heapData = some u) : Pooled u := by
  rcases stepMemoria_cases s u heap heapData hstep with ⟨server, conn, served, rest, hwire, rfl⟩
  refine ⟨?_, fun fd packet hpacket => ?_, h.outbox, h.absent, h.control⟩
  · refine Pool.sound_mono _ _ _ s.load _ h.pool fun fd => ?_
    unfold State.load State.holding
    by_cases hfd : fd = s.kernel.memfd
    · subst hfd
      have hle := (pending_subperm served rest).length_le
      simp only [Function.update_self, hwire, List.length_append]
      omega
    · simp only [Function.update_of_ne hfd]
      exact Nat.le_refl _
  · exact h.wire fd packet (mem_update_suffix _ _ served rest hwire fd packet hpacket)

/-- A step of a CPU after which it has no more than before, counting what it has sent. -/
theorem pooled_stepped (s : State) (fd : Int) (cpu : Cpu.State) (res : Cpu.Result) (h : Pooled s)
    (hcpu : s.cpus fd = some cpu) (hinbox : ∃ packets, s.kernel.wire fd = packets ++ res.inbox)
    (hcontrol : ∀ i sigue, res.state.control ≠ .compartida i sigue)
    (hsent : ∀ packet ∈ res.sent, packet.header.opcode = .OP_CPU_PROGRAM_END)
    (hload : (pending res.inbox ++ running res.state).length + res.sent.length
      ≤ (s.holding fd).length) : Pooled (s.stepped fd res) := by
  refine ⟨?_, fun other packet hpacket => ?_, fun other packet hpacket => ?_, fun other hother => ?_,
    fun other cpu' hcpu' => ?_⟩
  -- The pool is the same, and no load is larger.
  · have hsound := Pool.sound_mono _ _ _ s.load (s.stepped fd res).load h.pool fun other => by
      unfold State.load
      by_cases hfd : other = fd
      · subst hfd
        rw [holding_stepped]
        simp only [State.stepped, Function.update_self, List.length_append] at hload ⊢
        omega
      · rw [holding_stepped_of_ne s fd other res hfd]
        simp only [State.stepped, Function.update_of_ne hfd]
        exact Nat.le_refl _
    have hmember : (fun other => (s.stepped fd res).cpus other ≠ none)
        = fun other => s.cpus other ≠ none := by
      funext other
      by_cases hfd : other = fd
      · subst hfd
        simp [State.stepped, hcpu]
      · simp only [State.stepped, Function.update_of_ne hfd]
    rw [hmember]
    exact hsound
  · rcases hinbox with ⟨packets, hwire⟩
    exact h.wire other packet (mem_update_suffix _ fd packets _ hwire other packet hpacket)
  · rcases outbox_stepped s fd res other packet hpacket with hold | hnew
    · exact h.outbox other packet hold
    · exact hsent packet hnew
  · rcases cpus_update_none s.cpus fd other _ hother with ⟨hfd, hnone⟩
    simp only [State.stepped, Function.update_of_ne hfd]
    exact h.absent other hnone
  · rcases cpus_stepped s fd res other cpu' hcpu' with rfl | hold
    · exact hcontrol
    · exact h.control other cpu' hold

/-- A CPU that waits reads what starts its burst, or nothing that matters. -/
theorem pooled_espera (config : Config) (s : State) (r : Cpu.Residue) (fd : Int) (cpu : Cpu.State)
    (res : Cpu.Result) (h : Pooled s) (hcpu : s.cpus fd = some cpu)
    (hcontrol : cpu.control = .espera)
    (hstep : Cpu.step config.cpu r cpu s.memoria (s.kernel.wire fd) = some res) :
    Pooled (s.stepped fd res) := by
  rcases Cpu.step_espera_cases config.cpu r cpu s.memoria _ res hcontrol hstep with
    ⟨packet, hwire, -, hsent, hcase⟩
  have hbefore : s.holding fd = pending (packet :: res.inbox) := by
    unfold State.holding
    rw [hwire, hcpu]
    simp only [running, hcontrol, List.append_nil]
  have hnone : ∀ p ∈ res.sent, p.header.opcode = .OP_CPU_PROGRAM_END := by
    rw [hsent]
    exact fun p hp => absurd hp List.not_mem_nil
  rcases hcase with ⟨hop, hstate⟩ | hquantum | ⟨hop, hstate⟩
  -- A control block that was unread is now the one that runs.
  · have hcontrol' : res.state.control = .bucle 1 := by
      rw [hstate]
      rfl
    refine pooled_stepped s fd cpu res h hcpu ⟨[packet], hwire⟩ (by rw [hcontrol']; simp) hnone ?_
    rw [hbefore, pending_pcb packet res.inbox hop, hsent]
    simp only [running, hcontrol', List.length_append, List.length_cons, List.length_nil]
    omega
  -- The kernel never sends a quantum.
  · have hmem : packet ∈ s.kernel.wire fd := hwire ▸ List.mem_cons_self
    exact absurd hquantum (h.wire fd packet hmem)
  · refine pooled_stepped s fd cpu res h hcpu ⟨[packet], hwire⟩
      (by rw [hstate, hcontrol]; simp) hnone ?_
    rw [hbefore, pending_other packet res.inbox hop, hsent, hstate]
    simp only [running, hcontrol, List.length_append, List.length_nil]
    omega

/-- A CPU at the test of its loop goes on, or ends the burst and says so. -/
theorem pooled_bucle (config : Config) (s : State) (r : Cpu.Residue) (fd : Int) (cpu : Cpu.State)
    (res : Cpu.Result) (i : Int) (h : Pooled s) (hcpu : s.cpus fd = some cpu)
    (hcontrol : cpu.control = .bucle i)
    (hstep : Cpu.step config.cpu r cpu s.memoria (s.kernel.wire fd) = some res) :
    Pooled (s.stepped fd res) := by
  rcases Cpu.step_bucle_cases config.cpu r cpu s.memoria _ res i hcontrol hstep with
    ⟨hinbox, hcase⟩
  have hwire : ∃ packets, s.kernel.wire fd = packets ++ res.inbox :=
    ⟨[], by rw [hinbox, List.nil_append]⟩
  have hbefore : s.holding fd = pending res.inbox ++ [cpu.pcbActual.idProcess] := by
    unfold State.holding
    rw [hinbox, hcpu]
    simp only [running, hcontrol]
  rcases hcase with ⟨-, hsent, conn, linea, hstate⟩ | ⟨-, -, hstate, hsent⟩
  -- The next line is fetched.
  · refine pooled_stepped s fd cpu res h hcpu hwire (by rw [hstate]; simp)
      (by rw [hsent]; exact fun p hp => absurd hp List.not_mem_nil) ?_
    rw [hbefore, hsent, hstate]
    by_cases hfin : cpu.finPrograma = true
    · simp [running, hfin]
    · simp [running, hfin]
  -- The burst is over: what ran is handed back now, or was when it blocked.
  · have hrun : running res.state = [] := by rw [hstate]; rfl
    rcases hsent with ⟨-, hsent⟩ | ⟨packet, hsent, hback⟩
    · refine pooled_stepped s fd cpu res h hcpu hwire (by rw [hstate]; simp)
        (by rw [hsent]; exact fun p hp => absurd hp List.not_mem_nil) ?_
      rw [hbefore, hsent, hrun]
      simp
    · refine pooled_stepped s fd cpu res h hcpu hwire (by rw [hstate]; simp)
        (by rw [hsent]; exact fun p hp => List.mem_singleton.mp hp ▸ hback.1) ?_
      rw [hbefore, hsent, hrun]
      simp

/-- A CPU inside a line that ends its process at most once. -/
theorem pooled_linea (config : Config) (s : State) (r : Cpu.Residue) (fd : Int) (cpu : Cpu.State)
    (res : Cpu.Result) (i : Int) (linea : Linea) (h : Pooled s) (hcpu : s.cpus fd = some cpu)
    (hcontrol : cpu.control = .linea i linea) (hcall : linea.callsKernel = false)
    (hagain : (cpu.finPrograma && linea.ends) = false)
    (hstep : Cpu.step config.cpu r cpu s.memoria (s.kernel.wire fd) = some res) :
    Pooled (s.stepped fd res) := by
  have hlinea : Cpu.stepLinea config.cpu r cpu s.memoria (s.kernel.wire fd) i linea = some res := by
    rw [← Cpu.step_linea config.cpu r cpu s.memoria _ i linea hcontrol]
    exact hstep
  have hbefore : s.holding fd = pending (s.kernel.wire fd)
      ++ if cpu.finPrograma then [] else [cpu.pcbActual.idProcess] := by
    unfold State.holding
    rw [hcpu]
    simp only [running, hcontrol]
  rcases Cpu.stepLinea_cases config.cpu r cpu s.memoria _ i linea res hcall hlinea with
    ⟨hinbox, hpid, ⟨linea', hcontrol'⟩, hcase⟩ | ⟨hinbox, hsent, hcase⟩
  · have hwire : ∃ packets, s.kernel.wire fd = packets ++ res.inbox :=
      ⟨[], by rw [hinbox, List.nil_append]⟩
    have hrun : running res.state
        = if res.state.finPrograma then [] else [cpu.pcbActual.idProcess] := by
      simp only [running, hcontrol', hpid]
    rcases hcase with ⟨hsent, hfin⟩ | ⟨hfin, packet, hsent, hback⟩
    · refine pooled_stepped s fd cpu res h hcpu hwire (by rw [hcontrol']; simp)
        (by rw [hsent]; exact fun p hp => absurd hp List.not_mem_nil) ?_
      rw [hbefore, hinbox, hrun, hsent, hfin]
      exact Nat.le_refl _
    -- The process has not been handed back yet in this line, or nothing would be sent.
    · have hfirst : cpu.finPrograma = false := by
        by_contra hset
        have hends : linea.ends = false := by
          rw [Bool.not_eq_false] at hset
          simpa [hset] using hagain
        have hsilent := Cpu.stepLinea_silent config.cpu r cpu s.memoria _ i linea res hcall hends
          hlinea
        rw [hsent] at hsilent
        exact absurd hsilent (List.cons_ne_nil _ _)
      refine pooled_stepped s fd cpu res h hcpu hwire (by rw [hcontrol']; simp)
        (by rw [hsent]; exact fun p hp => List.mem_singleton.mp hp ▸ hback.1) ?_
      rw [hbefore, hinbox, hrun, hsent, hfin, hfirst]
      simp
  · have hwire : ∃ packets, s.kernel.wire fd = packets ++ res.inbox :=
      ⟨[], by rw [hinbox, List.nil_append]⟩
    have hnone : ∀ p ∈ res.sent, p.header.opcode = .OP_CPU_PROGRAM_END := by
      rw [hsent]
      exact fun p hp => absurd hp List.not_mem_nil
    rcases hcase with hespera | ⟨hbucle, hpid, hfin, -⟩
    · refine pooled_stepped s fd cpu res h hcpu hwire (by rw [hespera]; simp) hnone ?_
      have hrun : running res.state = [] := by simp only [running, hespera]
      rw [hbefore, hinbox, hsent, hrun]
      simp
    · refine pooled_stepped s fd cpu res h hcpu hwire (by rw [hbucle]; simp) hnone ?_
      have hrun : running res.state = [cpu.pcbActual.idProcess] := by
        simp only [running, hbucle, hpid]
      rw [hbefore, hinbox, hsent, hrun, hfin]
      simp

theorem pooled_stepCpu (config : Config) (s u : State) (r : Cpu.Residue) (fd : Int) (h : Pooled s)
    (hcall : s.calling fd = false) (hagain : s.endsAgain fd = false)
    (hstep : stepCpu config s r fd = some u) : Pooled u := by
  rcases stepCpu_cases config s u r fd hstep with ⟨cpu, res, hcpu, hres, rfl⟩
  cases hcontrol : cpu.control with
  | espera => exact pooled_espera config s r fd cpu res h hcpu hcontrol hres
  | bucle i => exact pooled_bucle config s r fd cpu res i h hcpu hcontrol hres
  | linea i linea =>
      simp only [State.calling, State.endsAgain, hcpu, hcontrol] at hcall hagain
      exact pooled_linea config s r fd cpu res i linea h hcpu hcontrol hcall hagain hres
  | compartida i sigue => exact absurd hcontrol (h.control fd cpu hcpu i sigue)

/-- Every step in which nobody leaves and each burst is reported once. -/
theorem pooled_step (config : Config) (s : State) (e : PoolEvent) (u : State) (h : Pooled s)
    (hok : PoolKeeps s e) (hstep : stepPool config s e = some u) : Pooled u := by
  cases e with
  | disconnectCpu fd => exact hok.elim
  | step e =>
      cases e with
      | kernel r event => exact pooled_stepKernel config s u r event h hstep
      | connectCpu r fd conn => exact pooled_stepConnect config s u r fd conn h hstep
      | syscall r cpu => exact pooled_stepSyscall config s u r cpu h hstep
      | memoria heap heapData => exact pooled_stepMemoria s u heap heapData h hstep
      | cpu r fd => exact pooled_stepCpu config s u r fd h hok.1 hok.2 hstep

theorem pooled_init (multipgLevel memfd : Int) (semInit : List Int) (shared : Nat)
    (memoria : Memoria.ServerState) (memoriaConn : Memoria.Connection) :
    Pooled (init multipgLevel memfd semInit shared memoria memoriaConn) where
  pool := Pool.sound_empty _ _ (fun _ => not_not.mpr rfl) fun _ => rfl
  wire := fun _ _ hpacket => absurd hpacket List.not_mem_nil
  outbox := fun _ _ hpacket => absurd hpacket List.not_mem_nil
  absent := fun _ _ => rfl
  control := fun _ cpu hcpu => absurd hcpu (by simp [init])

/-- A CPU that is sent a control block does nothing in the same step. -/
theorem running_of_sent (config : Config) (s : State) (e : PoolEvent) (u : State) (fd : Int)
    (hstep : stepPool config s e = some u)
    (hsent : (pending (s.kernel.wire fd)).length < (pending (u.kernel.wire fd)).length) :
    u.cpus = s.cpus := by
  cases e with
  | disconnectCpu other =>
      simp only [stepPool, stepDisconnect] at hstep
      split at hstep
      · rw [Option.some.injEq] at hstep
        subst hstep
        by_cases hfd : fd = other
        · subst hfd
          simp at hsent
        · simp only [Function.update_of_ne hfd] at hsent
          exact absurd hsent (Nat.lt_irrefl _)
      · exact absurd hstep (by simp)
  | step e =>
      cases e with
      | kernel r event =>
          rcases stepKernel_cases config s u r event hstep with ⟨kernel, -, rfl, -⟩
          rfl
      | connectCpu r other conn =>
          rcases stepConnect_cases config s u r other conn hstep with ⟨-, rfl⟩
          by_cases hfd : fd = other
          · subst hfd
            simp at hsent
          · simp only [Function.update_of_ne hfd] at hsent
            exact absurd hsent (Nat.lt_irrefl _)
      | syscall r cpu =>
          rcases stepSyscall_cases config s u r cpu hstep with ⟨_, _, _, _, -, -, rfl⟩
          rfl
      | memoria heap heapData =>
          rcases stepMemoria_cases s u heap heapData hstep with ⟨_, _, _, _, -, rfl⟩
          rfl
      | cpu r other =>
          rcases stepCpu_cases config s u r other hstep with ⟨cpu, res, hcpu, hres, rfl⟩
          by_cases hfd : fd = other
          -- A CPU only takes packets off its wire.
          · subst hfd
            rcases Cpu.step_suffix config.cpu r cpu s.memoria _ res hres with ⟨packets, hwire⟩
            have hle := (pending_subperm packets res.inbox).length_le
            rw [← hwire] at hle
            simp only [State.stepped, Function.update_self] at hsent
            omega
          · simp only [State.stepped, Function.update_of_ne hfd] at hsent
            exact absurd hsent (Nat.lt_irrefl _)

/-- A step to a state in which nobody has two control blocks sends one only to who has
    none. -/
theorem sendsWhenFree_of_single (config : Config) (s : State) (e : PoolEvent)
    (h : ∀ u, stepPool config s e = some u → PoolOk u) : SendsWhenFree config s e := by
  intro u hstep fd hsent
  have hsingle := (h u hstep).burst fd
  have hsame := running_of_sent config s e u fd hstep hsent
  unfold State.holding at hsingle
  rw [hsame, List.length_append] at hsingle
  rw [← List.length_eq_zero_iff]
  unfold State.holding
  rw [List.length_append]
  omega

/-- In a run from start-up in which no CPU leaves and what a CPU sends is the end of its
    burst, once, the pool keeps its integrity. -/
theorem pool_along (config : Config) (multipgLevel memfd : Int) (semInit : List Int)
    (shared : Nat) (memoria : Memoria.ServerState) (memoriaConn : Memoria.Connection)
    (es : List PoolEvent)
    (hok : Along (stepPool config) PoolKeeps
      (init multipgLevel memfd semInit shared memoria memoriaConn) es) :
    Throughout (stepPool config) PoolOk
        (init multipgLevel memfd semInit shared memoria memoriaConn) es
      ∧ Along (stepPool config) (SendsWhenFree config)
        (init multipgLevel memfd semInit shared memoria memoriaConn) es := by
  have hinit := pooled_init multipgLevel memfd semInit shared memoria memoriaConn
  have hstep : ∀ s e u, Pooled s → PoolKeeps s e → stepPool config s e = some u → Pooled u :=
    fun s e u h hok hstep => pooled_step config s e u h hok hstep
  constructor
  · exact throughout_mono _ Pooled PoolOk poolOk_of_pooled _ es
      (throughout_invariant_along _ PoolKeeps Pooled hstep _ es hinit hok)
  · exact along_of_invariant _ PoolKeeps _ Pooled hstep
      (fun s e h hkeeps => sendsWhenFree_of_single config s e fun u hu =>
        poolOk_of_pooled u (hstep s e u h hkeeps hu)) _ es hinit hok

theorem endRun_pool :
    (run (stepPool waitConfig) startUp (endRun.map .step)).isSome
      ∧ Throughout (stepPool waitConfig) PoolOk startUp (endRun.map .step)
      ∧ Along (stepPool waitConfig) (SendsWhenFree waitConfig) startUp (endRun.map .step) :=
  ⟨by decide +kernel, pool_along waitConfig 3 4 [1] 0 freshServer freshClient (endRun.map .step)
    (by decide +kernel)⟩

/-- The CPU goes on after its wait, ends the blocked process, and the kernel reads that. -/
def twiceRun : List Event :=
  blockedRun ++ [.cpu zeroCpu 6, .cpu zeroCpu 6, .syscall zeroKernel sampleCpu]

/-- The CPU is put on `cpu_conectadas` when the kernel reads the wait, and again when it
    reads that the burst is over. -/
theorem cpu_registered_twice :
    ¬ ∀ (config : Config) (multipgLevel memfd : Int) (semInit : List Int) (shared : Nat)
        (memoria : Memoria.ServerState) (memoriaConn : Memoria.Connection) (es : List PoolEvent)
        (t : State),
      run (stepPool config) (init multipgLevel memfd semInit shared memoria memoriaConn) es
          = some t →
      Throughout (stepPool config) PoolOk
          (init multipgLevel memfd semInit shared memoria memoriaConn) es
        ∧ Along (stepPool config) (SendsWhenFree config)
          (init multipgLevel memfd semInit shared memoria memoriaConn) es := by
  intro hall
  have hrun : run (stepPool waitConfig) startUp (twiceRun.map .step)
      = some (ranTo startUp twiceRun) := by
    rw [run_map (step waitConfig) (stepPool waitConfig) PoolEvent.step fun _ _ => rfl]
    exact run_ranTo startUp twiceRun (by decide +kernel)
  have hgood := throughout_last _ _ _ _ _
    (hall waitConfig 3 4 [1] 0 freshServer freshClient _ _ hrun).1 hrun
  have htwice : (ranTo startUp twiceRun).places 6 = 2 := by decide +kernel
  have hconnected : (ranTo startUp twiceRun).cpus 6 ≠ none := by
    rw [← Option.isSome_iff_ne_none]
    decide +kernel
  have hone := hgood.once 6 hconnected
  omega

end System

end Esther
