import Esther.Theory.Bursts
import Esther.Theory.Consoles
import Esther.Theory.Values

/-!
# Shared Variables as Registers

Whether what a CPU gets for a shared variable is the value last assigned to it, in any
interleaving of the CPUs, the kernel and the memory server.

The CPUs are the clients of a `Register.Service`. A call of `asignarValorCompartida` or
`obtenerValorCompartida` is made when the CPU sends its packets, and served when the kernel
has read them. `Seen` follows the service beside the system, with what the kernel has sent
back; it says what an answer should be, and no step depends on it.

A CPU that waits for a value takes the next packet of the kernel, whatever it is. The
kernel marks the CPU as free when it has read any of its calls, so in the next scheduling
round the next packet may be the control block of another process.

## Main definitions

* `Seen`, `stepSeen`: The system, and the service it should be.
* `ReadsRegister`: A CPU that gets a value gets the answer to its call.
* `Proper`: Descriptors belong to one process, and values are in range.
* `QuietReads`: Nothing comes between a call and its answer.
* `Sent`, `Coherent`: The calls on their way, and the invariant.

## Theorems

* `coherent_step`: The invariant is kept by every step that meets the two conditions.
* `reads_register_along`: So values are those of the registers in every such run.
* `control_block_read_as_value`: A run in which a CPU takes a control block for a value.
-/

namespace Esther

namespace System

open Cells Serial Transition

/-- A call about a shared variable. -/
abbrev SharedCall := Register.Call (List UInt8) Int

/-- The service, and the packets the kernel sent to a CPU when it last read a call of it. -/
structure Seen where
  service : Register.Service Int (List UInt8) Int
  reply : Int → List Packet

def Seen.init : Seen := { service := Register.Service.init, reply := fun _ => [] }

/-- The call about a shared variable that a CPU makes next, if it makes one. -/
def State.sharedCall (s : State) (fd : Int) : Option SharedCall :=
  match s.cpus fd with
  | some cpu => match cpu.control with
    | .linea _ (.obtenerValorCompartida nombre _) => some (.read (cstr nombre))
    | .linea _ (.asignarValorCompartida nombre valor _) => some (.write (cstr nombre) valor)
    | _ => none
  | none => none

/-- A CPU is in `obtenerValorCompartida`, and waits for the value. -/
def State.waits (s : State) (fd : Int) : Bool :=
  match s.cpus fd with
  | some cpu => match cpu.control with
    | .compartida _ _ => true
    | _ => false
  | none => false

/-- A step is written down: a CPU calls, or the kernel reads the oldest call of a CPU. -/
def Seen.note (seen : Seen) (s u : State) : Event → Seen
  | .cpu _ fd => match s.sharedCall fd with
    | some call =>
        { service := seen.service.call fd call, reply := Function.update seen.reply fd [] }
    | none => seen
  | .syscall _ cpu => match s.outbox cpu.clientID with
    | packet :: _ =>
        if packet.header.opcode = .OP_CPU_SHARED_VAR then
          { service := seen.service.serve 0 cpu.clientID
            reply := Function.update seen.reply cpu.clientID
              ((u.kernel.wire cpu.clientID).drop (s.kernel.wire cpu.clientID).length) }
        else seen
    | [] => seen
  | _ => seen

def stepSeen (config : Config) (x : State × Seen) (e : Event) : Option (State × Seen) :=
  (step config x.1 e).map fun u => (u, x.2.note x.1 u e)

/-- A CPU that goes on with a value has read what the kernel sent for its call, and the
    value is the one the register had when the call was served. -/
def ReadsRegister (config : Config) (x : State × Seen) : Event → Prop
  | .cpu r fd => ∀ cpu i sigue u, x.1.cpus fd = some cpu → cpu.control = .compartida i sigue →
      step config x.1 (.cpu r fd) = some u →
      ∃ packet more valor cpu', x.1.kernel.wire fd = packet :: more ∧ x.2.reply fd = [packet]
        ∧ packet.header.opcode = .OP_KE_SEND_SHAREDVALUE
        ∧ x.2.service.answer fd = some valor
        ∧ u.cpus fd = some cpu' ∧ cpu'.control = .linea i (sigue valor)
  | _ => True

/-- A new connection has a descriptor of its own, programs come from consoles, and what is
    assigned is in the signed 16-bit range. -/
def Proper (s : State) : Event → Prop
  | .kernel _ (.connectConsole fd) => s.cpus fd = none
  | .kernel _ (.newProgram console _) => console ∈ s.kernel.consolasConectadas.map (·.clientID)
  | .connectCpu _ fd _ => fd ≠ s.kernel.memfd
      ∧ fd ∉ s.kernel.consolasConectadas.map (·.clientID)
  | .cpu _ fd => ∀ call ∈ s.sharedCall fd, ∀ valor ∈ call.written,
      -2 ^ 15 ≤ valor ∧ valor < 2 ^ 15
  | _ => True

/-- When a CPU asks for a value it has read all it was sent, and no control block is sent to
    it before the answer. -/
def QuietReads (config : Config) (s : State) : Event → Prop
  | .cpu _ fd => ∀ call ∈ s.sharedCall fd, call.written = none → s.kernel.wire fd = []
  | .kernel r (.planificacion res) => ∀ k ∈ Kernel.admitir config.kernel s.kernel r res,
      ∀ fd ∈ Kernel.dispatched k.pcbReady k.cpuConectadas,
        s.waits fd = true → s.kernel.wire fd ≠ []
  | _ => True

instance decidableProper (s : State) : (e : Event) → Decidable (Proper s e)
  | .kernel _ (.connectConsole fd) => inferInstanceAs (Decidable (s.cpus fd = none))
  | .kernel _ (.newProgram console _) => inferInstanceAs
      (Decidable (console ∈ s.kernel.consolasConectadas.map (·.clientID)))
  | .connectCpu _ fd _ => inferInstanceAs (Decidable (fd ≠ s.kernel.memfd
      ∧ fd ∉ s.kernel.consolasConectadas.map (·.clientID)))
  | .cpu _ fd => inferInstanceAs (Decidable (∀ call ∈ s.sharedCall fd, ∀ valor ∈ call.written,
      -2 ^ 15 ≤ valor ∧ valor < 2 ^ 15))
  | .kernel _ (.connectCpu _) => .isTrue trivial
  | .kernel _ (.planificacion _) => .isTrue trivial
  | .kernel _ (.syscall _ _ _) => .isTrue trivial
  | .kernel _ (.destroyConsole _) => .isTrue trivial
  | .kernel _ (.kill _) => .isTrue trivial
  | .syscall _ _ => .isTrue trivial
  | .memoria _ _ => .isTrue trivial

instance decidableQuietReads (config : Config) (s : State) :
    (e : Event) → Decidable (QuietReads config s e)
  | .cpu _ fd => inferInstanceAs (Decidable (∀ call ∈ s.sharedCall fd, call.written = none →
      s.kernel.wire fd = []))
  | .kernel r (.planificacion res) => inferInstanceAs (Decidable
      (∀ k ∈ Kernel.admitir config.kernel s.kernel r res,
        ∀ fd ∈ Kernel.dispatched k.pcbReady k.cpuConectadas,
          s.waits fd = true → s.kernel.wire fd ≠ []))
  | .kernel _ (.connectConsole _) => .isTrue trivial
  | .kernel _ (.connectCpu _) => .isTrue trivial
  | .kernel _ (.newProgram _ _) => .isTrue trivial
  | .kernel _ (.syscall _ _ _) => .isTrue trivial
  | .kernel _ (.destroyConsole _) => .isTrue trivial
  | .kernel _ (.kill _) => .isTrue trivial
  | .connectCpu _ _ _ => .isTrue trivial
  | .syscall _ _ => .isTrue trivial
  | .memoria _ _ => .isTrue trivial

/-- The packets a CPU has sent and the kernel not read are messages, and those about shared
    variables are its calls. -/
inductive Sent : List SharedCall → List Packet → Prop
  | nil : Sent [] []
  | ends (packet : Packet) (calls : List SharedCall) (packets : List Packet)
      (hop : packet.header.opcode = .OP_CPU_PROGRAM_END) (h : Sent calls packets) :
      Sent calls (packet :: packets)
  | semaphore (packet packetSem : Packet) (calls : List SharedCall) (packets : List Packet)
      (hop : packet.header.opcode = .OP_CPU_SEMAPHORE) (h : Sent calls packets) :
      Sent calls (packet :: packetSem :: packets)
  | read (packet named : Packet) (nombre : List UInt8) (calls : List SharedCall)
      (packets : List Packet) (hop : packet.header.opcode = .OP_CPU_SHARED_VAR)
      (hname : named.payload = 118 :: cstr nombre) (h : Sent calls packets) :
      Sent (.read (cstr nombre) :: calls) (packet :: named :: packets)
  | write (packet named value : Packet) (nombre : List UInt8) (valor : Int)
      (calls : List SharedCall) (packets : List Packet)
      (hop : packet.header.opcode = .OP_CPU_SHARED_VAR) (hname : named.payload = 97 :: cstr nombre)
      (hvalue : value.payload = encH valor) (hshort : Short valor) (h : Sent calls packets) :
      Sent (.write (cstr nombre) valor :: calls) (packet :: named :: value :: packets)

theorem sent_append (calls calls' : List SharedCall) (packets packets' : List Packet)
    (h : Sent calls packets) (h' : Sent calls' packets') :
    Sent (calls ++ calls') (packets ++ packets') := by
  induction h with
  | nil => exact h'
  | ends packet calls packets hop _ ih => exact .ends packet _ _ hop ih
  | semaphore packet packetSem calls packets hop _ ih =>
      exact .semaphore packet packetSem _ _ hop ih
  | read packet named nombre calls packets hop hname _ ih =>
      exact .read packet named nombre _ _ hop hname ih
  | write packet named value nombre valor calls packets hop hname hvalue hshort _ ih =>
      exact .write packet named value nombre valor _ _ hop hname hvalue hshort ih

/-- The last call of a CPU is the read it waits for; the kernel has not come to it, and
    nothing is on the wire. -/
def Unanswered (x : State × Seen) (fd : Int) : Prop :=
  x.1.kernel.wire fd = [] ∧ ∃ calls nombre, x.2.service.queue fd = calls ++ [.read nombre]
    ∧ ∀ other, Register.Call.read other ∉ calls

/-- The kernel has read all the calls of a CPU, and the next packet is the answer to the
    last one. -/
def Answered (x : State × Seen) (fd : Int) : Prop :=
  x.2.service.queue fd = [] ∧ ∃ packet more valor, x.1.kernel.wire fd = packet :: more
    ∧ x.2.reply fd = [packet] ∧ x.2.service.answer fd = some valor
    ∧ packet.header.opcode = .OP_KE_SEND_SHAREDVALUE ∧ packet.payload = encH valor ∧ Short valor

/-- The kernel's array has the values of the registers, the calls are on their way, and a
    CPU that waits will be answered by the first packet it reads. -/
structure Coherent (config : Config) (x : State × Seen) : Prop where
  count : x.1.kernel.sharedValues.length = config.kernel.sharedVars.length
  holds : Register.Holds 0 (Kernel.registerIndex config.kernel) x.1.kernel.sharedValues
    x.2.service.served
  short : ∀ nombre, Short (Register.last 0 nombre x.2.service.served)
  sent : ∀ fd, Sent (x.2.service.queue fd) (x.1.outbox fd)
  waiting : ∀ fd, x.1.waits fd = true → Unanswered x fd ∨ Answered x fd
  resolved : ∀ fd, x.1.waits fd = false → ∀ nombre,
    Register.Call.read nombre ∉ x.2.service.queue fd
  distant : ∀ fd, x.1.cpus fd ≠ none → x.1.kernel.Distant fd
  absent : ∀ fd, x.1.cpus fd = none → x.1.outbox fd = []

theorem connected_of_waits (s : State) (fd : Int) (h : s.waits fd = true) : s.cpus fd ≠ none := by
  intro hnone
  unfold State.waits at h
  rw [hnone] at h
  exact absurd h (by simp)

/-- Where a CPU stands that waits for a value. -/
theorem control_of_waits (s : State) (fd : Int) (cpu : Cpu.State) (hcpu : s.cpus fd = some cpu)
    (h : s.waits fd = true) : ∃ i sigue, cpu.control = .compartida i sigue := by
  simp only [State.waits, hcpu] at h
  cases hcontrol : cpu.control with
  | compartida i sigue => exact ⟨i, sigue, rfl⟩
  | espera => simp [hcontrol] at h
  | bucle i => simp [hcontrol] at h
  | linea i linea => simp [hcontrol] at h

/-- A CPU that makes a call about a shared variable is inside a line that says so. -/
theorem sharedCall_cases (s : State) (fd : Int) (call : SharedCall)
    (h : s.sharedCall fd = some call) : ∃ cpu i, s.cpus fd = some cpu
      ∧ ((∃ nombre sigue, cpu.control = .linea i (.obtenerValorCompartida nombre sigue)
          ∧ call = .read (cstr nombre))
        ∨ ∃ nombre valor sigue, cpu.control = .linea i (.asignarValorCompartida nombre valor sigue)
          ∧ call = .write (cstr nombre) valor) := by
  unfold State.sharedCall at h
  cases hcpu : s.cpus fd with
  | none => simp [hcpu] at h
  | some cpu =>
      simp only [hcpu] at h
      split at h
      · rename_i i nombre sigue hcontrol
        exact ⟨cpu, i, rfl, Or.inl ⟨nombre, sigue, hcontrol, (Option.some.inj h).symm⟩⟩
      · rename_i i nombre valor sigue hcontrol
        exact ⟨cpu, i, rfl, Or.inr ⟨nombre, valor, sigue, hcontrol, (Option.some.inj h).symm⟩⟩
      · exact absurd h (by simp)

/-- What is sent after the answer does not change what the answer is. -/
theorem waiting_append (s u : State) (seen : Seen) (fd : Int) (packets : List Packet)
    (h : Unanswered (s, seen) fd ∨ Answered (s, seen) fd)
    (hwire : u.kernel.wire fd = s.kernel.wire fd ++ packets)
    (hnone : s.kernel.wire fd = [] → packets = []) :
    Unanswered (u, seen) fd ∨ Answered (u, seen) fd := by
  rcases h with ⟨hempty, hqueue⟩ | ⟨hqueue, packet, more, valor, hfirst, hrest⟩
  · refine Or.inl ⟨?_, hqueue⟩
    have hmore := hnone hempty
    simp only at hempty ⊢
    rw [hwire, hempty, hmore]
    rfl
  · refine Or.inr ⟨hqueue, packet, more ++ packets, valor, ?_, hrest⟩
    simp only at hfirst ⊢
    rw [hwire, hfirst]
    rfl

/-- A step of the kernel that has nothing to do with shared variables. -/
theorem coherent_quiet (config : Config) (s : State) (u : Kernel.State)
    (outbox : Int → List Packet) (seen : Seen) (h : Coherent config (s, seen))
    (hvalues : u.sharedValues = s.kernel.sharedValues)
    (hdistant : ∀ fd, s.cpus fd ≠ none → u.Distant fd)
    (hwire : ∀ fd, s.waits fd = true → ∃ packets, u.wire fd = s.kernel.wire fd ++ packets
      ∧ (s.kernel.wire fd = [] → packets = []))
    (hsent : ∀ fd, Sent (seen.service.queue fd) (outbox fd))
    (habsent : ∀ fd, s.cpus fd = none → outbox fd = []) :
    Coherent config ({ s with kernel := u, outbox := outbox }, seen) where
  count := by
    simp only [hvalues]
    exact h.count
  holds := by
    simp only [hvalues]
    exact h.holds
  short := h.short
  sent := hsent
  waiting := by
    intro fd hwaits
    rcases hwire fd hwaits with ⟨packets, hfd, hnone⟩
    exact waiting_append s _ seen fd packets (h.waiting fd hwaits) hfd hnone
  resolved := h.resolved
  distant := hdistant
  absent := habsent

/-- A handler that sends a CPU nothing. -/
theorem coherent_spared (config : Config) (s : State) (u : Kernel.State) (seen : Seen)
    (h : Coherent config (s, seen)) (hvalues : u.sharedValues = s.kernel.sharedValues)
    (hdistant : ∀ fd, s.cpus fd ≠ none → u.Distant fd)
    (hwire : ∀ fd, s.cpus fd ≠ none → u.wire fd = s.kernel.wire fd) :
    Coherent config ({ s with kernel := u }, seen) := by
  refine coherent_quiet config s u s.outbox seen h hvalues hdistant (fun fd hwaits => ?_) h.sent
    h.absent
  refine ⟨[], ?_, fun _ => rfl⟩
  rw [List.append_nil]
  exact hwire fd (connected_of_waits s fd hwaits)

theorem coherent_planificacion (config : Config) (s : State) (u : Kernel.State) (seen : Seen)
    (r : Kernel.Residue) (res : Int) (h : Coherent config (s, seen))
    (hquiet : QuietReads config s (.kernel r (.planificacion res)))
    (hplan : Kernel.planificacion config.kernel s.kernel r res = some u) :
    Coherent config ({ s with kernel := u }, seen) := by
  rcases Kernel.planificacion_cases config.kernel s.kernel u r res hplan with
    ⟨k₁, hadm, n, w, -, hu⟩
  have hdesp : Kernel.despachar r k₁ k₁.pcbReady k₁.cpuConectadas = some u := by
    rw [Kernel.planificacion, hadm] at hplan
    exact hplan
  have hround := hquiet k₁ hadm
  have hadmitted : k₁.sharedValues = s.kernel.sharedValues ∧ k₁.memfd = s.kernel.memfd
      ∧ k₁.consolasConectadas = s.kernel.consolasConectadas := by
    rcases Kernel.admitir_cases config.kernel s.kernel k₁ r res hadm with
      rfl | ⟨_, _, _, _, -, -, -, ⟨-, w, rfl⟩ | ⟨-, w, rfl⟩⟩
    · exact ⟨rfl, rfl, rfl⟩
    · exact ⟨rfl, rfl, rfl⟩
    · exact ⟨rfl, rfl, rfl⟩
  have hvalues : u.sharedValues = s.kernel.sharedValues := by
    rw [hu]
    exact hadmitted.1
  refine coherent_quiet config s u s.outbox seen h hvalues (fun fd hfd => ?_) (fun fd hwaits => ?_)
    h.sent h.absent
  · have hold := h.distant fd hfd
    unfold Kernel.State.Distant at hold ⊢
    rw [hu]
    simp only [hadmitted.2.1, hadmitted.2.2]
    exact hold
  · have hfirst := Kernel.wire_admitir config.kernel s.kernel k₁ r res fd
      (h.distant fd (connected_of_waits s fd hwaits)).1 hadm
    rcases Kernel.wire_despachar r k₁ u _ _ fd hdesp with ⟨packets, hwire, hnone⟩
    refine ⟨packets, by rw [hwire, hfirst], fun hempty => hnone fun hmem => ?_⟩
    -- A control block would be the first packet the CPU reads.
    exact hround fd hmem hwaits hempty

theorem coherent_stepKernel (config : Config) (s u : State) (seen : Seen) (r : Kernel.Residue)
    (event : Kernel.Event) (h : Coherent config (s, seen)) (hproper : Proper s (.kernel r event))
    (hquiet : QuietReads config s (.kernel r event))
    (hstep : stepKernel config s r event = some u) : Coherent config (u, seen) := by
  rcases stepKernel_cases config s u r event hstep with ⟨kernel, hk, rfl, hconnect, hsyscall⟩
  cases event with
  | connectConsole fd =>
      obtain rfl := Kernel.step_connectConsole _ _ _ kernel r fd hk
      refine coherent_spared config s _ seen h rfl (fun other hother => ?_) fun _ _ => rfl
      have hold := h.distant other hother
      refine ⟨hold.1, fun client hclient => ?_⟩
      simp only [List.mem_append, List.mem_singleton] at hclient
      rcases hclient with hmem | rfl
      · exact hold.2 client hmem
      · exact fun heq => hother (heq ▸ hproper)
  | connectCpu fd => exact absurd rfl (hconnect fd)
  | newProgram console program =>
      have hnew := hk
      rcases Kernel.gestionDatosNewPcb_cases config.cpu.parser config.kernel s.kernel kernel r
        program console hk with ⟨pcb, consolas, w, -, -, -, heq⟩
      have hwire := Kernel.wire_gestionDatosNewPcb config.cpu.parser config.kernel s.kernel kernel
        r program console hnew
      refine coherent_spared config s kernel seen h (by rw [heq]) (fun fd hfd => ?_) fun fd hfd => ?_
      · exact hwire.2 fd (h.distant fd hfd)
      -- The number of the program goes to its console, which is not a CPU.
      · have hne : fd ≠ console := by
          rcases List.mem_map.mp hproper with ⟨client, hclient, rfl⟩
          exact Ne.symm ((h.distant fd hfd).2 client hclient)
        exact hwire.1 fd hne
  | planificacion res => exact coherent_planificacion config s kernel seen r res h hquiet hk
  | syscall cpu packet siguientes => exact absurd rfl (hsyscall cpu packet siguientes)
  | destroyConsole client =>
      obtain rfl := Kernel.step_destroyConsole _ _ _ kernel r client hk
      rcases Kernel.destroyConsole_eq s.kernel r client with ⟨consolas, ended, f, w, heq, -⟩
      -- The ends of programs are told to the memory server, which is not a CPU.
      have hends : ∀ fd, s.cpus fd ≠ none →
          (Kernel.destroyConsole s.kernel r client).wire fd = s.kernel.wire fd
            ∧ (Kernel.destroyConsole s.kernel r client).Distant fd := by
        intro fd hfd
        have hold := h.distant fd hfd
        refine Kernel.wire_endConsolePrograms r _ client.pids fd ⟨hold.1, fun other hother => ?_⟩
        exact hold.2 other (List.mem_of_mem_filter hother)
      exact coherent_spared config s _ seen h (by rw [heq]) (fun fd hfd => (hends fd hfd).2)
        fun fd hfd => (hends fd hfd).1
  | kill pid =>
      rcases Kernel.step_kill _ _ _ kernel r pid hk with ⟨-, rfl⟩
      exact coherent_spared config s _ seen h rfl h.distant fun _ _ => rfl

theorem sent_nil (calls : List SharedCall) (h : Sent calls []) : calls = [] := by
  cases h
  rfl

/-- A CPU that connects has made no calls. -/
theorem coherent_stepConnect (config : Config) (s u : State) (seen : Seen) (r : Kernel.Residue)
    (fd : Int) (conn : Memoria.Connection) (h : Coherent config (s, seen))
    (hproper : Proper s (.connectCpu r fd conn)) (hstep : stepConnect config s r fd conn = some u) :
    Coherent config (u, seen) := by
  rcases stepConnect_cases config s u r fd conn hstep with ⟨hnone, rfl⟩
  -- No calls are outstanding on a descriptor that has sent nothing.
  have hqueue : seen.service.queue fd = [] := by
    have hsent : Sent (seen.service.queue fd) (s.outbox fd) := h.sent fd
    rw [show s.outbox fd = [] from h.absent fd hnone] at hsent
    exact sent_nil _ hsent
  refine ⟨h.count, h.holds, h.short, h.sent, fun other hwaits => ?_, fun other hwaits => ?_,
    fun other hother => ?_, fun other hother => ?_⟩
  · by_cases hne : other = fd
    · subst hne
      simp [State.waits, Cpu.State.init] at hwaits
    · simp only [State.waits, Function.update_of_ne hne] at hwaits
      refine waiting_append s _ seen other [] (h.waiting other hwaits) ?_ fun _ => rfl
      simp only [Function.update_of_ne hne, List.append_nil]
  · by_cases hne : other = fd
    · subst hne
      simp only [hqueue]
      exact fun _ => List.not_mem_nil
    · simp only [State.waits, Function.update_of_ne hne] at hwaits
      exact h.resolved other hwaits
  · by_cases hne : other = fd
    · subst hne
      refine ⟨hproper.1, fun client hclient heq => hproper.2 ?_⟩
      exact List.mem_map.mpr ⟨client, hclient, heq⟩
    · simp only [Function.update_of_ne hne] at hother
      exact h.distant other hother
  · exact h.absent other (cpus_update_none s.cpus fd other _ hother).2

/-- The memory server reads what no CPU does. -/
theorem coherent_stepMemoria (config : Config) (s u : State) (seen : Seen) (heap heapData : Buf)
    (h : Coherent config (s, seen)) (hstep : stepMemoria s heap heapData = some u) :
    Coherent config (u, seen) := by
  rcases stepMemoria_cases s u heap heapData hstep with ⟨server, conn, served, rest, -, rfl⟩
  refine ⟨h.count, h.holds, h.short, h.sent, fun fd hwaits => ?_, h.resolved, h.distant, h.absent⟩
  have hne := (h.distant fd (connected_of_waits s fd hwaits)).1
  refine waiting_append s _ seen fd [] (h.waiting fd hwaits) ?_ fun _ => rfl
  simp only [Function.update_of_ne hne, List.append_nil]

/-- The kernel has read packets of a CPU, which is connected. -/
theorem absent_update (s : State) (fd : Int) (packet : Packet) (siguientes rest : List Packet)
    (h : ∀ other, s.cpus other = none → s.outbox other = [])
    (houtbox : s.outbox fd = packet :: siguientes) (other : Int) (hother : s.cpus other = none) :
    Function.update s.outbox fd rest other = [] := by
  have hempty := h other hother
  by_cases hfd : other = fd
  · rw [hfd, houtbox] at hempty
    exact absurd hempty (List.cons_ne_nil _ _)
  · rw [Function.update_of_ne hfd]
    exact hempty

/-- One CPU's calls and messages are replaced. -/
theorem sent_replace (queue : Int → List SharedCall) (outbox : Int → List Packet) (client : Int)
    (calls : List SharedCall) (rest : List Packet) (hall : ∀ fd, Sent (queue fd) (outbox fd))
    (hsent : Sent calls rest) (fd : Int) :
    Sent (Function.update queue client calls fd) (Function.update outbox client rest fd) := by
  by_cases hfd : fd = client
  · subst hfd
    simp only [Function.update_self]
    exact hsent
  · simp only [Function.update_of_ne hfd]
    exact hall fd

theorem sent_update (s : State) (seen : Seen) (fd : Int) (rest : List Packet)
    (h : ∀ other, Sent (seen.service.queue other) (s.outbox other))
    (hsent : Sent (seen.service.queue fd) rest) (other : Int) :
    Sent (seen.service.queue other) (Function.update s.outbox fd rest other) := by
  have hreplaced := sent_replace seen.service.queue s.outbox fd _ rest h hsent other
  rwa [Function.update_eq_self] at hreplaced

/-- The kernel reads that a process has ended. -/
theorem coherent_ends (config : Config) (s : State) (u : Kernel.State) (seen : Seen)
    (r : Kernel.Residue) (cpu : Kernel.Client) (packet : Packet) (siguientes rest : List Packet)
    (h : Coherent config (s, seen)) (houtbox : s.outbox cpu.clientID = packet :: siguientes)
    (hop : packet.header.opcode = .OP_CPU_PROGRAM_END)
    (hsent : Sent (seen.service.queue cpu.clientID) siguientes)
    (hsys : Kernel.gestionSyscall config.kernel s.kernel r packet cpu siguientes
      = some (u, rest)) :
    Coherent config
      ({ s with kernel := u, outbox := Function.update s.outbox cpu.clientID rest }, seen) := by
  rw [Kernel.gestionSyscall_programEnd config.kernel s.kernel r cpu packet siguientes hop,
    Option.some.injEq, Prod.mk.injEq] at hsys
  rcases hsys with ⟨hu, rfl⟩
  have hends := Kernel.wire_endProgram (s.kernel.leaveExec (Kernel.syscallPid r packet)) r
    (Kernel.syscallPcb r packet) Kernel.exitSuccessful
  have hdistant := Kernel.distant_endProgram (s.kernel.leaveExec (Kernel.syscallPid r packet)) r
    (Kernel.syscallPcb r packet) Kernel.exitSuccessful
  -- An end of program calls no shared variable and answers no processor.
  refine coherent_quiet config s u _ seen h ?_ (fun fd hfd => ?_) (fun fd hwaits => ?_)
    (sent_update s seen cpu.clientID _ h.sent hsent)
    (absent_update s cpu.clientID packet _ _ h.absent houtbox)
  · rcases Kernel.endProgram_eq (s.kernel.leaveExec (Kernel.syscallPid r packet)) r
      (Kernel.syscallPcb r packet) Kernel.exitSuccessful with ⟨w, heq⟩
    rw [← hu, heq]
    rfl
  · rw [← hu]
    exact hdistant fd (h.distant fd hfd)
  · have hfd := h.distant fd (connected_of_waits s fd hwaits)
    refine ⟨[], ?_, fun _ => rfl⟩
    rw [← hu, List.append_nil]
    exact hends fd hfd

/-- The kernel reads a wait or a signal. -/
theorem coherent_semaphore (config : Config) (s : State) (u : Kernel.State) (seen : Seen)
    (r : Kernel.Residue) (cpu : Kernel.Client) (packet packetSem : Packet)
    (siguientes rest : List Packet) (h : Coherent config (s, seen))
    (houtbox : s.outbox cpu.clientID = packet :: packetSem :: siguientes)
    (hop : packet.header.opcode = .OP_CPU_SEMAPHORE)
    (hsent : Sent (seen.service.queue cpu.clientID) siguientes)
    (hsys : Kernel.gestionSyscall config.kernel s.kernel r packet cpu (packetSem :: siguientes)
      = some (u, rest)) :
    Coherent config
      ({ s with kernel := u, outbox := Function.update s.outbox cpu.clientID rest }, seen) := by
  -- Neither touches the values, or sends anything.
  have hsame : siguientes = rest ∧ u.sharedValues = s.kernel.sharedValues
      ∧ u.memfd = s.kernel.memfd ∧ u.consolasConectadas = s.kernel.consolasConectadas
      ∧ u.wire = s.kernel.wire := by
    rcases Kernel.gestionSyscall_cases config.kernel s.kernel u r cpu packet _ rest hsys with
      hend | ⟨-, other, hrest, hwait | hsignal⟩ | hshared | ⟨-, hnone, -⟩
    · exact absurd (hop.symm.trans hend.1) (by simp)
    · have hpair := List.cons.inj hrest
      rcases hwait with ⟨-, k₁, hk, rfl⟩
      rcases Kernel.semWait_cases _ k₁ _ _ hk with
        ⟨value, queue, -, -, ⟨-, rfl⟩ | ⟨-, rfl⟩⟩
      · exact ⟨hpair.2, rfl, rfl, rfl, rfl⟩
      · exact ⟨hpair.2, rfl, rfl, rfl, rfl⟩
    · have hpair := List.cons.inj hrest
      rcases hsignal with ⟨-, k₁, hk, rfl⟩
      rcases Kernel.semSignal_cases _ k₁ _ _ _ hk with ⟨value, queue, head, rest', -, -, -, rfl⟩
      exact ⟨hpair.2, rfl, rfl, rfl, rfl⟩
    · exact absurd (hop.symm.trans hshared.1) (by simp)
    · exact absurd hop hnone
  rcases hsame with ⟨rfl, hvalues, hmem, hconsolas, hwire⟩
  refine coherent_quiet config s u _ seen h hvalues (fun fd hfd => ?_) (fun fd _ => ?_)
    (sent_update s seen cpu.clientID _ h.sent hsent)
    (absent_update s cpu.clientID packet _ _ h.absent houtbox)
  · have hold := h.distant fd hfd
    unfold Kernel.State.Distant at hold ⊢
    rw [hmem, hconsolas]
    exact hold
  · exact ⟨[], by rw [hwire, List.append_nil], fun _ => rfl⟩

/-- The kernel reads that a value is asked for, and sends it. -/
theorem coherent_read (config : Config) (s : State) (u : Kernel.State) (seen : Seen)
    (r : Kernel.Residue) (cpu : Kernel.Client) (packet named : Packet) (nombre : List UInt8)
    (calls : List SharedCall) (siguientes rest : List Packet) (h : Coherent config (s, seen))
    (houtbox : s.outbox cpu.clientID = packet :: named :: siguientes)
    (hop : packet.header.opcode = .OP_CPU_SHARED_VAR) (hname : named.payload = 118 :: cstr nombre)
    (hqueue : seen.service.queue cpu.clientID = .read (cstr nombre) :: calls)
    (hsent : Sent calls siguientes)
    (hsys : Kernel.gestionSyscall config.kernel s.kernel r packet cpu (named :: siguientes)
      = some (u, rest)) :
    Coherent config
      ({ s with kernel := u, outbox := Function.update s.outbox cpu.clientID rest },
        { service := seen.service.serve 0 cpu.clientID
          reply := Function.update seen.reply cpu.clientID
            ((u.wire cpu.clientID).drop (s.kernel.wire cpu.clientID).length) }) := by
  rcases Kernel.gestionSyscall_read config.kernel s.kernel u r cpu packet named siguientes rest
    nombre hop hname hsys with ⟨rfl, value, hvalue, rfl⟩
  have hlt : Kernel.registerIndex config.kernel (cstr nombre) < s.kernel.sharedValues.length :=
    (List.getElem?_eq_some_iff.mp hvalue).1
  have hlast : value = Register.last 0 (cstr nombre) seen.service.served := by
    have hcell := h.holds (cstr nombre) hlt
    rw [hvalue, Option.some.injEq] at hcell
    exact hcell
  rw [Register.serve_read 0 seen.service cpu.clientID (cstr nombre) calls hqueue]
  refine ⟨h.count, Register.holds_read 0 _ _ _ (cstr nombre) h.holds, fun other => ?_,
    fun fd => ?_, fun fd hwaits => ?_, fun fd hwaits => ?_, h.distant,
    absent_update s cpu.clientID packet _ _ h.absent houtbox⟩
  · simp only [Register.last_append_read]
    exact h.short other
  · exact sent_replace _ _ _ _ _ h.sent hsent fd
  · by_cases hfd : fd = cpu.clientID
    -- It was the last call, and the answer is the first packet on the wire.
    · subst hfd
      rcases h.waiting cpu.clientID hwaits with ⟨hempty, before, last, hlastCall, hno⟩ | hanswered
      · simp only [hqueue] at hlastCall
        cases before with
        | nil =>
            have hcalls := (List.cons.inj hlastCall).2
            simp only at hempty
            refine Or.inr ⟨?_, Kernel.valuePacket r value, [], value, ?_, ?_, ?_, rfl,
              Kernel.valuePacket_payload r value, ?_⟩
            · simp only [Function.update_self]
              exact hcalls
            · simp only [Kernel.State.restoreCPU, Kernel.State.send, Kernel.State.leaveExec,
                Function.update_self, hempty, List.nil_append]
            · simp only [Kernel.State.restoreCPU, Kernel.State.send, Kernel.State.leaveExec,
                Function.update_self, hempty, List.nil_append, List.length_nil, List.drop_zero]
            · simp only [Function.update_self, hlast]
            · rw [hlast]
              exact h.short (cstr nombre)
        | cons first before =>
            have hfirst := (List.cons.inj hlastCall).1
            exact absurd (hfirst ▸ List.mem_cons_self) (hno (cstr nombre))
      · have hnone := hanswered.1
        simp only [hqueue] at hnone
        exact absurd hnone (List.cons_ne_nil _ _)
    · have hold := h.waiting fd hwaits
      unfold Unanswered Answered at hold ⊢
      simp only [Kernel.State.restoreCPU, Kernel.State.send, Kernel.State.leaveExec,
        Function.update_of_ne hfd]
      exact hold
  · by_cases hfd : fd = cpu.clientID
    · subst hfd
      have hno := h.resolved cpu.clientID hwaits (cstr nombre)
      simp only [hqueue] at hno
      exact absurd List.mem_cons_self hno
    · simp only [Function.update_of_ne hfd]
      exact h.resolved fd hwaits

/-- The kernel reads a value and keeps it. -/
theorem coherent_write (config : Config) (s : State) (u : Kernel.State) (seen : Seen)
    (r : Kernel.Residue) (cpu : Kernel.Client) (packet named value : Packet) (nombre : List UInt8)
    (valor : Int) (calls : List SharedCall) (siguientes rest : List Packet)
    (h : Coherent config (s, seen))
    (houtbox : s.outbox cpu.clientID = packet :: named :: value :: siguientes)
    (hop : packet.header.opcode = .OP_CPU_SHARED_VAR) (hname : named.payload = 97 :: cstr nombre)
    (hvalue : value.payload = encH valor) (hshort : Short valor)
    (hqueue : seen.service.queue cpu.clientID = .write (cstr nombre) valor :: calls)
    (hsent : Sent calls siguientes)
    (hsys : Kernel.gestionSyscall config.kernel s.kernel r packet cpu
      (named :: value :: siguientes) = some (u, rest)) :
    Coherent config
      ({ s with kernel := u, outbox := Function.update s.outbox cpu.clientID rest },
        { service := seen.service.serve 0 cpu.clientID
          reply := Function.update seen.reply cpu.clientID
            ((u.wire cpu.clientID).drop (s.kernel.wire cpu.clientID).length) }) := by
  rcases Kernel.gestionSyscall_write config.kernel s.kernel u r cpu packet named value siguientes
    rest nombre valor hop hname hvalue hshort hsys with ⟨rfl, rfl⟩
  rw [Register.serve_write 0 valor seen.service cpu.clientID (cstr nombre) calls hqueue]
  refine ⟨?_, ?_, fun other => ?_, fun fd => ?_, fun fd hwaits => ?_, fun fd hwaits other => ?_,
    h.distant, absent_update s cpu.clientID packet _ _ h.absent houtbox⟩
  · simp only [Kernel.State.restoreCPU, List.length_set]
    exact h.count
  · refine Register.holds_write 0 valor _ _ _ (cstr nombre) h.holds fun other hindex hlt => ?_
    exact Kernel.registerIndex_inj config.kernel other (cstr nombre) hindex (h.count ▸ hlt)
  · simp only [Register.last_append_write]
    split
    · exact hshort
    · exact h.short other
  · exact sent_replace _ _ _ _ _ h.sent hsent fd
  · by_cases hfd : fd = cpu.clientID
    -- There are calls behind it, the last of which the CPU waits for.
    · subst hfd
      rcases h.waiting cpu.clientID hwaits with ⟨hempty, before, last, hlastCall, hno⟩ | hanswered
      · simp only [hqueue] at hlastCall
        cases before with
        | nil => exact absurd (List.cons.inj hlastCall).1 (by simp)
        | cons first before =>
            refine Or.inl ⟨hempty, before, last, ?_, fun other hmem => ?_⟩
            · simp only [Function.update_self]
              exact (List.cons.inj hlastCall).2
            · exact hno other (List.mem_cons_of_mem first hmem)
      · have hnone := hanswered.1
        simp only [hqueue] at hnone
        exact absurd hnone (List.cons_ne_nil _ _)
    · have hold := h.waiting fd hwaits
      unfold Unanswered Answered at hold ⊢
      simp only [Kernel.State.restoreCPU, Kernel.State.leaveExec, Function.update_of_ne hfd]
      exact hold
  · by_cases hfd : fd = cpu.clientID
    · subst hfd
      have hno := h.resolved cpu.clientID hwaits other
      simp only [hqueue] at hno
      simp only [Function.update_self]
      exact fun hmem => hno (List.mem_cons_of_mem _ hmem)
    · simp only [Function.update_of_ne hfd]
      exact h.resolved fd hwaits other

/-- The kernel reads a message of a CPU, by cases on what the message is. -/
theorem coherent_stepSyscall (config : Config) (s u : State) (seen : Seen) (r : Kernel.Residue)
    (cpu : Kernel.Client) (h : Coherent config (s, seen))
    (hstep : stepSyscall config s r cpu = some u) :
    Coherent config (u, seen.note s u (.syscall r cpu)) := by
  rcases stepSyscall_cases config s u r cpu hstep with
    ⟨packet, siguientes, kernel, rest, houtbox, hsys, rfl⟩
  have hsent := h.sent cpu.clientID
  simp only [houtbox] at hsent
  generalize hqueue : seen.service.queue cpu.clientID = queue at hsent
  -- What comes first on the connection says which call is served.
  cases hsent with
  | ends _ _ _ hop hrest =>
      simp only [Seen.note, houtbox, hop, reduceCtorEq, if_false]
      exact coherent_ends config s kernel seen r cpu packet siguientes rest h houtbox hop
        (hqueue ▸ hrest) hsys
  | semaphore _ packetSem _ siguientes hop hrest =>
      simp only [Seen.note, houtbox, hop, reduceCtorEq, if_false]
      exact coherent_semaphore config s kernel seen r cpu packet packetSem siguientes rest h
        houtbox hop (hqueue ▸ hrest) hsys
  | read _ named nombre calls siguientes hop hname hrest =>
      simp only [Seen.note, houtbox, hop, if_true]
      exact coherent_read config s kernel seen r cpu packet named nombre calls siguientes rest h
        houtbox hop hname hqueue hrest hsys
  | write _ named value nombre valor calls siguientes hop hname hvalue hshort hrest =>
      simp only [Seen.note, houtbox, hop, if_true]
      exact coherent_write config s kernel seen r cpu packet named value nombre valor calls
        siguientes rest h houtbox hop hname hvalue hshort hqueue hrest hsys

/-- The packet a value is assigned with. -/
theorem packed_value (r : Cpu.Residue) (header : Header) (valor : Int) :
    (Cpu.packed r header [.h valor]).payload = encH valor := by
  have hpack := serialPack_eq r.buffer 0 [.h valor]
  have hargs : encArgs [.h valor] = encH valor := List.append_nil _
  rw [hargs] at hpack
  exact protocolPacket_serialPack _ r.buffer [.h valor] (encH valor) hpack

/-- A step in which a CPU makes no call about a shared variable sends other messages, if
    any, and does not wait for a value afterwards. -/
theorem sent_step (config : Config) (s : State) (r : Cpu.Residue) (fd : Int) (cpu : Cpu.State)
    (res : Cpu.Result) (hcpu : s.cpus fd = some cpu) (hcall : s.sharedCall fd = none)
    (hstep : Cpu.step config.cpu r cpu s.memoria (s.kernel.wire fd) = some res) :
    Sent [] res.sent ∧ ∀ i sigue, res.state.control ≠ .compartida i sigue := by
  have hends : ∀ pid packet, res.sent = [packet] → Cpu.HandsBack packet pid → Sent [] res.sent := by
    intro pid packet hsent hback
    rw [hsent]
    exact .ends packet [] [] hback.1 .nil
  have hsemaphore : ∀ letra nombre, Cpu.syscallPackets r cpu.pcbActual .OP_CPU_SEMAPHORE letra nombre
      = some res.sent → Sent [] res.sent := by
    intro letra nombre hsent
    rcases Cpu.syscallPackets_carries r cpu.pcbActual _ letra nombre _ hsent with
      ⟨packet, name, heq, hop, -⟩
    rw [heq]
    exact .semaphore packet name [] [] hop .nil
  cases hcontrol : cpu.control with
  | espera =>
      simp only [Cpu.step, hcontrol] at hstep
      cases hwire : s.kernel.wire fd with
      | nil => simp [hwire] at hstep
      | cons packet inbox =>
          simp only [hwire, Option.some.injEq] at hstep
          subst hstep
          refine ⟨.nil, fun i sigue => ?_⟩
          rcases Cpu.recibirMensajesDeKernel_control r cpu packet with hgo | hstay
          · simp [hgo]
          · simp [hstay, hcontrol]
  | bucle i =>
      rcases Cpu.step_bucle_cases config.cpu r cpu s.memoria _ res i hcontrol hstep with
        ⟨-, ⟨-, hsent, conn, linea, hstate⟩ | ⟨-, -, hstate, ⟨-, hsent⟩ | ⟨packet, hsent, hback⟩⟩⟩
      · exact ⟨hsent ▸ .nil, by rw [hstate]; simp⟩
      · exact ⟨hsent ▸ .nil, by rw [hstate]; simp⟩
      · exact ⟨hends _ packet hsent hback, by rw [hstate]; simp⟩
  | linea i linea =>
      have hlinea : Cpu.stepLinea config.cpu r cpu s.memoria (s.kernel.wire fd) i linea
          = some res := by
        rw [← Cpu.step_linea config.cpu r cpu s.memoria _ i linea hcontrol]
        exact hstep
      simp only [State.sharedCall, hcpu, hcontrol] at hcall
      by_cases hkernel : linea.callsKernel = false
      · rcases Cpu.stepLinea_cases config.cpu r cpu s.memoria _ i linea res hkernel hlinea with
          ⟨-, -, ⟨linea', hcontrol'⟩, hcase⟩ | ⟨-, hsent, hcase⟩
        · refine ⟨?_, by rw [hcontrol']; simp⟩
          rcases hcase with ⟨hsent, -⟩ | ⟨-, packet, hsent, hback⟩
          · exact hsent ▸ .nil
          · exact hends _ packet hsent hback
        · refine ⟨hsent ▸ .nil, ?_⟩
          rcases hcase with hespera | ⟨hbucle, -⟩
          · rw [hespera]
            simp
          · rw [hbucle]
            simp
      -- Of the kernel's functions there are left the two about semaphores.
      · cases linea with
        | obtenerValorCompartida nombre sigue => exact absurd hcall (by simp)
        | asignarValorCompartida nombre valor sigue => exact absurd hcall (by simp)
        | signal identificador sigue =>
            rw [Cpu.stepLinea, Option.map_eq_some_iff] at hlinea
            rcases hlinea with ⟨sent, hsent, rfl⟩
            exact ⟨hsemaphore _ _ hsent, by simp⟩
        | wait identificador sigue =>
            rw [Cpu.stepLinea, Option.map_eq_some_iff] at hlinea
            rcases hlinea with ⟨sent, hsent, rfl⟩
            exact ⟨hsemaphore _ _ hsent, by simp⟩
        | _ => exact absurd rfl hkernel
  | compartida i sigue =>
      rcases Cpu.step_compartida_cases config.cpu r cpu s.memoria _ res i sigue hcontrol hstep with
        ⟨packet, rest, _, rfl⟩
      exact ⟨.nil, by simp⟩

theorem waits_stepped_of_ne (s : State) (fd other : Int) (res : Cpu.Result) (h : other ≠ fd) :
    (s.stepped fd res).waits other = s.waits other := by
  simp only [State.waits, State.stepped, Function.update_of_ne h]

/-- A step of one CPU, as far as the others are concerned. -/
theorem coherent_stepped (config : Config) (s : State) (seen seen' : Seen) (fd : Int)
    (cpu : Cpu.State) (res : Cpu.Result) (h : Coherent config (s, seen))
    (hcpu : s.cpus fd = some cpu) (hserved : seen'.service.served = seen.service.served)
    (hqueue : ∀ other, other ≠ fd → seen'.service.queue other = seen.service.queue other)
    (hanswer : ∀ other, other ≠ fd → seen'.service.answer other = seen.service.answer other
      ∧ seen'.reply other = seen.reply other)
    (hsent : Sent (seen'.service.queue fd) (s.outbox fd ++ res.sent))
    (hwaiting : (s.stepped fd res).waits fd = true →
      Unanswered (s.stepped fd res, seen') fd ∨ Answered (s.stepped fd res, seen') fd)
    (hresolved : (s.stepped fd res).waits fd = false → ∀ nombre,
      Register.Call.read nombre ∉ seen'.service.queue fd) :
    Coherent config (s.stepped fd res, seen') where
  count := h.count
  holds := by
    simp only [hserved]
    exact h.holds
  short := by
    simp only [hserved]
    exact h.short
  sent := by
    intro other
    by_cases hfd : other = fd
    · -- The processor that took the step.
      subst hfd
      simp only [State.stepped, Function.update_self]
      exact hsent
    · -- Any other: neither its messages nor its calls have changed.
      simp only [State.stepped, Function.update_of_ne hfd, hqueue other hfd]
      exact h.sent other
  waiting := by
    intro other hwaits
    by_cases hfd : other = fd
    · subst hfd
      exact hwaiting hwaits
    · -- What it waits for has not come or has come, as before.
      simp only [waits_stepped_of_ne s fd other res hfd] at hwaits
      have hold := h.waiting other hwaits
      unfold Unanswered Answered at hold ⊢
      simp only [State.stepped, Function.update_of_ne hfd, hqueue other hfd,
        (hanswer other hfd).1, (hanswer other hfd).2]
      exact hold
  resolved := by
    intro other hwaits
    by_cases hfd : other = fd
    · subst hfd
      exact hresolved hwaits
    · simp only [waits_stepped_of_ne s fd other res hfd] at hwaits
      simp only [hqueue other hfd]
      exact h.resolved other hwaits
  distant := by
    intro other hother
    by_cases hfd : other = fd
    · subst hfd
      exact h.distant other (by simp [hcpu])
    · simp only [State.stepped, Function.update_of_ne hfd] at hother
      exact h.distant other hother
  absent := by
    intro other hother
    rcases cpus_update_none s.cpus fd other _ hother with ⟨hfd, hnone⟩
    simp only [State.stepped, Function.update_of_ne hfd]
    exact h.absent other hnone

/-- A CPU that goes on without a call about shared variables has no read on its way: if it
    was waiting, it has got the answer. -/
theorem resolved_of_step (config : Config) (s : State) (seen : Seen) (r : Cpu.Residue) (fd : Int)
    (cpu : Cpu.State) (res : Cpu.Result) (h : Coherent config (s, seen))
    (hcpu : s.cpus fd = some cpu)
    (hstep : Cpu.step config.cpu r cpu s.memoria (s.kernel.wire fd) = some res)
    (nombre : List UInt8) : Register.Call.read nombre ∉ seen.service.queue fd := by
  cases hwaits : s.waits fd with
  | false => exact h.resolved fd hwaits nombre
  | true =>
      rcases h.waiting fd hwaits with ⟨hempty, -⟩ | ⟨hqueue, -⟩
      -- A CPU whose answer has not come cannot go on.
      · rcases control_of_waits s fd cpu hcpu hwaits with ⟨i, sigue, hcontrol⟩
        rcases Cpu.step_compartida_cases config.cpu r cpu s.memoria _ res i sigue hcontrol hstep
          with ⟨packet, rest, hwire, _⟩
        exact absurd (hempty.symm.trans hwire) (by simp)
      · simp only at hqueue
        rw [hqueue]
        exact List.not_mem_nil

/-- A CPU asks for a value, with nothing unread. -/
theorem coherent_cpu_read (config : Config) (s : State) (seen : Seen) (r : Cpu.Residue) (fd : Int)
    (cpu : Cpu.State) (res : Cpu.Result) (i : Int) (nombre : List UInt8) (sigue : Int → Linea)
    (h : Coherent config (s, seen)) (hcpu : s.cpus fd = some cpu)
    (hcontrol : cpu.control = .linea i (.obtenerValorCompartida nombre sigue))
    (hquiet : s.kernel.wire fd = [])
    (hstep : Cpu.step config.cpu r cpu s.memoria (s.kernel.wire fd) = some res) :
    Coherent config (s.stepped fd res,
      { service := seen.service.call fd (.read (cstr nombre))
        reply := Function.update seen.reply fd [] }) := by
  have hno := resolved_of_step config s seen r fd cpu res h hcpu hstep
  rw [Cpu.step_linea config.cpu r cpu s.memoria _ i _ hcontrol, Cpu.stepLinea,
    Option.map_eq_some_iff] at hstep
  rcases hstep with ⟨sent, hsent, rfl⟩
  rcases Cpu.syscallPackets_eq r cpu.pcbActual _ _ nombre sent hsent with ⟨packet, rfl, hop⟩
  have hcalls : Function.update seen.service.queue fd
      (seen.service.queue fd ++ [.read (cstr nombre)]) fd
        = seen.service.queue fd ++ [.read (cstr nombre)] := Function.update_self ..
  refine coherent_stepped config s seen _ fd cpu _ h hcpu rfl
    (fun other hfd => Function.update_of_ne hfd _ _)
    (fun other hfd => ⟨Function.update_of_ne hfd _ _, Function.update_of_ne hfd _ _⟩) ?_
    (fun _ => Or.inl ⟨?_, seen.service.queue fd, cstr nombre, hcalls, fun other => hno other⟩)
    fun hwaits => ?_
  · simp only [Register.Service.call, hcalls]
    exact sent_append _ _ _ _ (h.sent fd) (.read packet _ nombre [] [] hop rfl .nil)
  · simp only [State.stepped, Function.update_self]
    exact hquiet
  · simp [State.waits, State.stepped] at hwaits

/-- A CPU assigns a value, and goes on. -/
theorem coherent_cpu_write (config : Config) (s : State) (seen : Seen) (r : Cpu.Residue) (fd : Int)
    (cpu : Cpu.State) (res : Cpu.Result) (i : Int) (nombre : List UInt8) (valor : Int)
    (sigue : Int → Linea) (h : Coherent config (s, seen)) (hcpu : s.cpus fd = some cpu)
    (hcontrol : cpu.control = .linea i (.asignarValorCompartida nombre valor sigue))
    (hshort : Short valor)
    (hstep : Cpu.step config.cpu r cpu s.memoria (s.kernel.wire fd) = some res) :
    Coherent config (s.stepped fd res,
      { service := seen.service.call fd (.write (cstr nombre) valor)
        reply := Function.update seen.reply fd [] }) := by
  have hno := resolved_of_step config s seen r fd cpu res h hcpu hstep
  rw [Cpu.step_linea config.cpu r cpu s.memoria _ i _ hcontrol, Cpu.stepLinea,
    Option.map_eq_some_iff] at hstep
  rcases hstep with ⟨sent, hsent, rfl⟩
  rw [Cpu.asignarValorCompartida, Option.map_eq_some_iff] at hsent
  rcases hsent with ⟨first, hfirst, rfl⟩
  rcases Cpu.syscallPackets_eq r cpu.pcbActual _ _ nombre first hfirst with ⟨packet, rfl, hop⟩
  -- The three packets are one call more, and nothing is awaited for it.
  have hcalls : Function.update seen.service.queue fd
      (seen.service.queue fd ++ [.write (cstr nombre) valor]) fd
        = seen.service.queue fd ++ [.write (cstr nombre) valor] := Function.update_self ..
  refine coherent_stepped config s seen _ fd cpu _ h hcpu rfl
    (fun other hfd => Function.update_of_ne hfd _ _)
    (fun other hfd => ⟨Function.update_of_ne hfd _ _, Function.update_of_ne hfd _ _⟩) ?_
    (fun hwaits => ?_) fun _ other => ?_
  · simp only [Register.Service.call, hcalls]
    exact sent_append _ _ _ _ (h.sent fd) (.write packet _ _ nombre valor [] [] hop rfl
      (packed_value r _ valor) hshort .nil)
  · simp [State.waits, State.stepped] at hwaits
  · simp only [Register.Service.call, hcalls, List.mem_append, List.mem_singleton, reduceCtorEq,
      or_false]
    exact hno other

/-- A step of a CPU, by the call it makes. -/
theorem coherent_stepCpu (config : Config) (s u : State) (seen : Seen) (r : Cpu.Residue) (fd : Int)
    (h : Coherent config (s, seen)) (hproper : Proper s (.cpu r fd))
    (hquiet : QuietReads config s (.cpu r fd)) (hstep : stepCpu config s r fd = some u) :
    Coherent config (u, seen.note s u (.cpu r fd)) := by
  rcases stepCpu_cases config s u r fd hstep with ⟨cpu, res, hcpu, hres, rfl⟩
  cases hcall : s.sharedCall fd with
  | none =>
      simp only [Seen.note, hcall]
      rcases sent_step config s r fd cpu res hcpu hcall hres with ⟨hsent, hcontrol⟩
      -- What else a CPU sends are no calls, and it is not left waiting.
      refine coherent_stepped config s seen seen fd cpu res h hcpu rfl (fun _ _ => rfl)
        (fun _ _ => ⟨rfl, rfl⟩) ?_ (fun hwaits => ?_) fun _ =>
          resolved_of_step config s seen r fd cpu res h hcpu hres
      · have happend := sent_append _ _ _ _ (h.sent fd) hsent
        rw [List.append_nil] at happend
        exact happend
      · have hnew : (s.stepped fd res).cpus fd = some res.state := Function.update_self ..
        rcases control_of_waits _ fd res.state hnew hwaits with ⟨i, sigue, hc⟩
        exact absurd hc (hcontrol i sigue)
  | some call =>
      simp only [Seen.note, hcall]
      rcases sharedCall_cases s fd call hcall with ⟨cpu', i, hcpu', hline⟩
      obtain rfl : cpu = cpu' := Option.some.inj (hcpu.symm.trans hcpu')
      have hshort := hproper call hcall
      have hunread := hquiet call hcall
      rcases hline with ⟨nombre, sigue, hcontrol, rfl⟩ | ⟨nombre, valor, sigue, hcontrol, rfl⟩
      · exact coherent_cpu_read config s seen r fd cpu res i nombre sigue h hcpu hcontrol
          (hunread rfl) hres
      · exact coherent_cpu_write config s seen r fd cpu res i nombre valor sigue h hcpu hcontrol
          (hshort valor rfl) hres

/-- Every step between proper processes in which nothing comes between a call and its
    answer. -/
theorem coherent_step (config : Config) (x : State × Seen) (e : Event) (y : State × Seen)
    (h : Coherent config x) (hok : Proper x.1 e ∧ QuietReads config x.1 e)
    (hstep : stepSeen config x e = some y) : Coherent config y := by
  rcases x with ⟨s, seen⟩
  simp only [stepSeen, Option.map_eq_some_iff] at hstep
  rcases hstep with ⟨u, hu, rfl⟩
  cases e with
  | kernel r event => exact coherent_stepKernel config s u seen r event h hok.1 hok.2 hu
  | connectCpu r fd conn => exact coherent_stepConnect config s u seen r fd conn h hok.1 hu
  | syscall r cpu => exact coherent_stepSyscall config s u seen r cpu h hu
  | memoria heap heapData => exact coherent_stepMemoria config s u seen heap heapData h hu
  | cpu r fd => exact coherent_stepCpu config s u seen r fd h hok.1 hok.2 hu

/-- There are as many values as configured names, all of them zero. -/
theorem coherent_init (config : Config) (multipgLevel memfd : Int) (semInit : List Int)
    (memoria : Memoria.ServerState) (memoriaConn : Memoria.Connection) :
    Coherent config (init multipgLevel memfd semInit config.kernel.sharedVars.length memoria
      memoriaConn, Seen.init) where
  count := List.length_replicate
  holds := Register.holds_replicate 0 _ _
  short := fun _ => ⟨by simp [Seen.init, Register.Service.init], by
    simp [Seen.init, Register.Service.init]⟩
  sent := fun _ => .nil
  waiting := fun _ hwaits => absurd hwaits (by simp [State.waits, init])
  resolved := fun _ _ _ => List.not_mem_nil
  distant := fun _ hfd => absurd rfl hfd
  absent := fun _ _ => rfl

/-- A CPU that waits in a coherent state gets its answer. -/
theorem readsRegister_of_coherent (config : Config) (x : State × Seen) (e : Event)
    (h : Coherent config x) : ReadsRegister config x e := by
  cases e with
  | cpu r fd =>
      intro cpu i sigue u hcpu hcontrol hstep
      have hwaits : x.1.waits fd = true := by
        simp only [State.waits, hcpu, hcontrol]
      rcases stepCpu_cases config x.1 u r fd hstep with ⟨cpu', res, hcpu', hres, rfl⟩
      obtain rfl : cpu = cpu' := Option.some.inj (hcpu.symm.trans hcpu')
      rcases h.waiting fd hwaits with ⟨hempty, -⟩ |
        ⟨-, packet, more, valor, hwire, hreply, hanswer, hop, hpayload, hshort⟩
      · -- Without an answer the processor does not move.
        rcases Cpu.step_compartida_cases config.cpu r cpu _ _ res i sigue hcontrol hres with
          ⟨packet, rest, hwire, _⟩
        exact absurd (hempty.symm.trans hwire) (by simp)
      · rcases Cpu.step_compartida_cases config.cpu r cpu _ _ res i sigue hcontrol hres with
          ⟨_, _, hinbox, rfl⟩
        obtain ⟨rfl, rfl⟩ := List.cons.inj (hwire.symm.trans hinbox)
        -- The answer is the packed value of the register at the time of the call.
        have hread : unpacki16 (packet.pointer r.reply) 0 = valor := by
          have hreads := pointer_reads packet r.reply
          rw [hpayload] at hreads
          rw [unpacki16_of_reads _ _ _ hreads, toShort_of_short valor hshort]
        refine ⟨packet, more, valor, _, hwire, hreply, hop, hanswer, Function.update_self .., ?_⟩
        simp only [hread]
  | kernel r event => trivial
  | connectCpu r fd conn => trivial
  | syscall r cpu => trivial
  | memoria heap heapData => trivial

/-- In a run from start-up in which a CPU asks for a value only with nothing unread, and is
    sent no control block before the answer, every value a CPU gets is that of the register
    when the kernel answered, in the packet with which it did. -/
theorem reads_register_along (config : Config) (multipgLevel memfd : Int) (semInit : List Int)
    (memoria : Memoria.ServerState) (memoriaConn : Memoria.Connection) (es : List Event)
    (hproper : Along (stepSeen config) (fun x e => Proper x.1 e)
      (init multipgLevel memfd semInit config.kernel.sharedVars.length memoria memoriaConn,
        Seen.init) es)
    (hquiet : Along (stepSeen config) (fun x e => QuietReads config x.1 e)
      (init multipgLevel memfd semInit config.kernel.sharedVars.length memoria memoriaConn,
        Seen.init) es) :
    Along (stepSeen config) (ReadsRegister config)
      (init multipgLevel memfd semInit config.kernel.sharedVars.length memoria memoriaConn,
        Seen.init) es :=
  along_of_invariant (stepSeen config) (fun x e => Proper x.1 e ∧ QuietReads config x.1 e)
    (ReadsRegister config) (Coherent config)
    (fun x e y h hok hstep => coherent_step config x e y h hok hstep)
    (fun x e h _ => readsRegister_of_coherent config x e h) _ es
    (coherent_init config multipgLevel memfd semInit memoria memoriaConn)
    (along_and _ _ _ _ es hproper hquiet)

/-- A parser that knows two lines, by their first letter: the shared variable `g` is assigned
    7, or read. -/
def sharedParser : Parser :=
  { waitParser with
    analizadorLinea := fun texto =>
      if texto.head? = some 97 then .asignarValorCompartida [103] 7 fun _ => .fin
      else .obtenerValorCompartida [103] fun _ => .fin }

/-- One shared variable, `g`. -/
def sharedConfig : Config :=
  { kernel := Kernel.sampleConfig, cpu := { waitConfig.cpu with parser := sharedParser } }

/-- The program `a g`, `v g`. -/
def sharedCode : List UInt8 := [97, 32, 103, 10, 118, 32, 103, 10]

abbrev sharedStart : State × Seen := (init 3 4 [1] 1 freshServer freshClient, Seen.init)

/-- The program assigns, and the kernel reads that; it asks, the kernel answers, and it gets
    the value. -/
def registerRun : List Event :=
  firstFetch sharedCode ++ [.cpu zeroCpu 6, .syscall zeroKernel sampleCpu, .cpu zeroCpu 6,
    .cpu zeroCpu 6, .cpu zeroCpu 6, .syscall zeroKernel sampleCpu, .cpu zeroCpu 6]

theorem registerRun_reads :
    (run (stepSeen sharedConfig) sharedStart registerRun).isSome
      ∧ Along (stepSeen sharedConfig) (ReadsRegister sharedConfig) sharedStart registerRun :=
  ⟨by decide +kernel, reads_register_along sharedConfig 3 4 [1] freshServer freshClient registerRun
    (by decide +kernel) (by decide +kernel)⟩

/-- Once the kernel has read the assignment, a second program arrives and is sent to the CPU,
    which then asks for the value. -/
def strayRun : List Event :=
  firstFetch sharedCode ++ [.cpu zeroCpu 6, .syscall zeroKernel sampleCpu,
    .kernel zeroKernel (.newProgram 5
      { header := protocolHeader .CONSOLE .OP_NEW_PROGRAM, payload := sharedCode }),
    .kernel zeroKernel (.planificacion 1), .cpu zeroCpu 6, .cpu zeroCpu 6, .cpu zeroCpu 6]

/-- The state of the system and the service a run leads to, if it can be taken. -/
def seenTo (es : List Event) : State × Seen :=
  (run (stepSeen sharedConfig) sharedStart es).getD sharedStart

theorem run_seenTo (es : List Event)
    (h : (run (stepSeen sharedConfig) sharedStart es).isSome = true) :
    run (stepSeen sharedConfig) sharedStart es = some (seenTo es) :=
  (Option.getD_of_ne_none (Option.isSome_iff_ne_none.mp h) sharedStart).symm

/-- The CPU waits for the value, the next packet is the control block of the second program,
    and that is what it reads. -/
theorem control_block_read_as_value :
    ¬ ∀ (config : Config) (multipgLevel memfd : Int) (semInit : List Int)
        (memoria : Memoria.ServerState) (memoriaConn : Memoria.Connection) (es : List Event)
        (t : State × Seen),
      Along (stepSeen config) (fun x e => Proper x.1 e)
        (init multipgLevel memfd semInit config.kernel.sharedVars.length memoria memoriaConn,
          Seen.init) es →
      run (stepSeen config)
        (init multipgLevel memfd semInit config.kernel.sharedVars.length memoria memoriaConn,
          Seen.init) es = some t →
      Along (stepSeen config) (ReadsRegister config)
        (init multipgLevel memfd semInit config.kernel.sharedVars.length memoria memoriaConn,
          Seen.init) es := by
  intro hall
  have hproper : Along (stepSeen sharedConfig) (fun x e => Proper x.1 e) sharedStart
      (strayRun ++ [.cpu zeroCpu 6]) := by decide +kernel
  have hrun := run_seenTo (strayRun ++ [.cpu zeroCpu 6]) (by decide +kernel)
  have hgood : Along (stepSeen sharedConfig) (ReadsRegister sharedConfig) sharedStart
      (strayRun ++ [.cpu zeroCpu 6]) :=
    hall sharedConfig 3 4 [1] freshServer freshClient _ _ hproper hrun
  have hlast := along_append _ _ sharedStart _ strayRun [.cpu zeroCpu 6] hgood
    (run_seenTo strayRun (by decide +kernel))
  -- Whoever waits and reads a control block does not read its answer.
  have hrefuted : ∀ x : State × Seen, ReadsRegister sharedConfig x (.cpu zeroCpu 6) →
      x.1.waits 6 = true → (step sharedConfig x.1 (.cpu zeroCpu 6)).isSome = true →
      (x.1.kernel.wire 6).map (fun packet => packet.header.opcode) = [.OP_KE_SEND_PCB] →
      False := by
    intro x hreads hwaits hstep hwire
    cases hcpu : x.1.cpus 6 with
    | none => exact connected_of_waits x.1 6 hwaits hcpu
    | some cpu =>
        rcases control_of_waits x.1 6 cpu hcpu hwaits with ⟨i, sigue, hcontrol⟩
        rcases Option.isSome_iff_exists.mp hstep with ⟨u, hu⟩
        rcases hreads cpu i sigue u hcpu hcontrol hu with
          ⟨packet, more, valor, cpu', hfirst, -, hop, -⟩
        rw [hfirst, List.map_cons] at hwire
        exact absurd (hop.symm.trans (List.cons.inj hwire).1) (by simp)
  exact hrefuted _ hlast.1 (by decide +kernel) (by decide +kernel) (by decide +kernel)

end System

end Esther
