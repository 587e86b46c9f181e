import Esther.Core.Descriptors
import Esther.Theory.Attribution
import Esther.Theory.Consoles
import Esther.Theory.Partition

/-!
# Descriptors That Are Used Again

Whether the kernel knows, through a whole run, what each of its descriptors is connected to.

The end of a console takes it out of `consolas_conectadas`, and its descriptor may come back as
a console's or a CPU's. The end of a CPU leaves it where it is. Its descriptor is closed all
the same, and when it comes back, `buscar_proceso` finds the CPU that has gone before it comes
to the consoles. A CPU that gets the descriptor is found as a CPU. A console is not found any
more: its programs are taken for messages of a CPU, and its end for that of one, so that
nothing of it is ever ended.

The descriptor of the memory server is in no list, and a round for it acts on the last client
there is. If that is a console whose connection is at its end, it is taken out of its list,
and its own descriptor stays in the set with nobody to be found for it.

A descriptor that has been a CPU's is in one of the two lists for good. But for the rounds of
the memory server's, what the kernel knows is therefore decided by the order in which the
descriptors are given out, whatever the clients send and the memory server answers.

## Main definitions

* `Conexiones.Reconoce`: What the search finds is what is connected.
* `SinReuso`: Two events that do not give the descriptor of a CPU to a console.
* `SinFin`: A round of the memory server's descriptor that does not end a console.
* `Registrados`: The lists agree with the descriptors that are open.

## Theorems

* `conserva_syscall`, `conserva_round`: What the handlers leave of the lists.
* `reconoce_iff`: What is connected is found if no console has the number of a CPU.
* `registrados_step`: What a step does to the lists and the descriptors.
* `not_reconoce_of_fin`: A console that is ended by a round of the memory server's descriptor.
* `descriptors_recognized`: The kernel knows its clients throughout a run exactly if no
  descriptor is given to a console after it has been a CPU's, and no such round ends one.
-/

namespace Esther

namespace Kernel

open Transition

/-- The CPUs the kernel has in its two lists. -/
def State.cpus (k : State) : List Client := k.cpuConectadas ++ k.cpuExecuting

/-- A CPU of the lists has the descriptor. -/
def State.deCpu (k : State) (fd : Int) : Prop := ∃ cpu ∈ k.cpus, cpu.clientID = fd

/-- The client the search finds for an open descriptor, but for that of the memory server, has
    that descriptor and is what is connected to it. -/
def Conexiones.Reconoce (m : Conexiones) : Prop :=
  ∀ i process, process ≠ .MEMORY → m.abiertos i = some process → ∀ aux, ∃ client,
    m.kernel.buscarProceso aux i = .cliente client ∧ client.clientID = i
      ∧ client.process = process

/-- The descriptor that is given out, and to what. -/
def Suceso.aceptado : Suceso → Option (Int × ProcessT)
  | .acepta fd process _ => some (fd, process)
  | _ => none

/-- The second event does not give to a console what the first has given to a CPU. -/
def SinReuso (e e' : Suceso) : Prop :=
  ∀ fd, e.aceptado = some (fd, .CPU) → e'.aceptado ≠ some (fd, .CONSOLE)

/-- A console does not get the descriptor of a CPU that is in the lists. -/
def Libre (m : Conexiones) (e : Suceso) : Prop :=
  ∀ fd, e.aceptado = some (fd, .CONSOLE) → ¬ m.kernel.deCpu fd

/-- If the descriptor that is ready is the memory server's, the client that is taken for it, the
    last one of the lists, is no console whose connection is at its end. -/
def SinFin (m : Conexiones) (e : Suceso) : Prop :=
  match e with
  | .listo i entrada _ => m.abiertos i = some .MEMORY →
      ∀ client ∈ m.kernel.clientes.getLast?, client.process = .CONSOLE →
        (entrada client.clientID).1.header.opcode ≠ .OP_UNDEFINED
  | _ => True

instance (m : Conexiones) : (e : Suceso) → Decidable (SinFin m e)
  | .acepta _ _ _ => .isTrue trivial
  | .listo _ _ _ => inferInstanceAs (Decidable (_ → _))
  | .planificacion _ _ => .isTrue trivial
  | .kill _ _ => .isTrue trivial

/-- The lists have what they should have, and all that is connected. The consoles in the list
    are connected; the CPUs need not be, but none has the descriptor of the memory server. -/
structure Registrados (m : Conexiones) : Prop where
  cpu : ∀ client ∈ m.kernel.cpus,
    client.process = .CPU ∧ m.abiertos client.clientID ≠ some .MEMORY
  consola : ∀ client ∈ m.kernel.consolasConectadas,
    client.process = .CONSOLE ∧ m.abiertos client.clientID = some .CONSOLE
  abierto : ∀ i process, process ≠ .MEMORY → m.abiertos i = some process →
    ∃ client ∈ m.kernel.clientes, client.clientID = i ∧ client.process = process

/-! ### What the handlers leave of the lists -/

/-- The same descriptors are those of CPUs, and the same of consoles. -/
structure Conserva (k k' : State) : Prop where
  cpu : ∀ client ∈ k'.cpus, client ∈ k.cpus
  ids : ∀ client ∈ k.cpus, k'.deCpu client.clientID
  consolas : k'.consolasConectadas.map (fun client => (client.clientID, client.process))
    = k.consolasConectadas.map fun client => (client.clientID, client.process)

theorem conserva_of_lists (k k' : State) (hfree : k'.cpuConectadas = k.cpuConectadas)
    (hbusy : k'.cpuExecuting = k.cpuExecuting)
    (hconsolas : k'.consolasConectadas = k.consolasConectadas) : Conserva k k' := by
  have hcpus : k'.cpus = k.cpus := by
    unfold State.cpus
    rw [hfree, hbusy]
  refine ⟨fun client hc => hcpus ▸ hc, fun client hc => ⟨client, ?_, rfl⟩, by rw [hconsolas]⟩
  rw [hcpus]
  exact hc

/-- `restoreCPU` puts the CPU back under its own number. -/
theorem conserva_restoreCPU (k k₁ : State) (cpu : Client) (hcpu : cpu ∈ k.cpus)
    (hfree : k₁.cpuConectadas = k.cpuConectadas) (hbusy : k₁.cpuExecuting = k.cpuExecuting)
    (hconsolas : k₁.consolasConectadas = k.consolasConectadas) :
    Conserva k (k₁.restoreCPU cpu) where
  cpu := by
    intro client hc
    simp only [State.restoreCPU, State.cpus, hfree, hbusy, List.mem_append, List.mem_filter,
      List.mem_singleton] at hc
    rw [State.cpus, List.mem_append]
    rcases hc with (hc | rfl) | ⟨hc, -⟩
    · exact Or.inl hc
    · rw [← List.mem_append]
      exact hcpu
    · exact Or.inr hc
  ids := by
    intro client hc
    rw [State.cpus, List.mem_append] at hc
    simp only [State.deCpu, State.restoreCPU, State.cpus, hfree, hbusy]
    by_cases hid : client.clientID = cpu.clientID
    · -- What has been taken off the list of busy ones is on the other.
      refine ⟨cpu, List.mem_append_left _ (List.mem_append_right _ ?_), hid.symm⟩
      exact List.mem_singleton_self cpu
    · rcases hc with hc | hc
      · exact ⟨client, List.mem_append_left _ (List.mem_append_left _ hc), rfl⟩
      · refine ⟨client, List.mem_append_right _ (List.mem_filter.mpr ⟨hc, ?_⟩), rfl⟩
        rw [beq_eq_false_iff_ne.mpr hid]
        rfl
  consolas := by
    simp only [State.restoreCPU, hconsolas]

theorem endProgram_lists (k : State) (r : Residue) (pcb : Pcb) (code : Int) :
    (k.endProgram r pcb code).cpuConectadas = k.cpuConectadas
      ∧ (k.endProgram r pcb code).cpuExecuting = k.cpuExecuting
      ∧ (k.endProgram r pcb code).consolasConectadas = k.consolasConectadas := by
  rcases endProgram_eq k r pcb code with ⟨w, heq⟩
  rw [heq]
  exact ⟨rfl, rfl, rfl⟩

/-- A message of a CPU moves it between the lists, if it does anything to them. -/
theorem conserva_syscall (config : Config) (k k' : State) (r : Residue) (cpu : Client)
    (packet : Packet) (siguientes rest : List Packet) (hcpu : cpu ∈ k.cpus)
    (h : gestionSyscall config k r packet cpu siguientes = some (k', rest)) : Conserva k k' := by
  rcases gestionSyscall_cases config k k' r cpu packet siguientes rest h with
    ⟨-, rfl⟩ | ⟨-, packetSem, -, ⟨-, k₁, hsem, rfl⟩ | ⟨-, k₁, hsem, rfl⟩⟩
      | ⟨-, values, w, rfl⟩ | ⟨-, -, -, rfl⟩
  · rcases endProgram_lists (k.leaveExec (syscallPid r packet)) r (syscallPcb r packet)
      exitSuccessful with ⟨hfree, hbusy, hconsolas⟩
    exact conserva_restoreCPU k _ cpu hcpu hfree hbusy hconsolas
  · rcases semWait_cases _ _ _ _ hsem with ⟨_, _, -, -, ⟨-, rfl⟩ | ⟨-, rfl⟩⟩
    · exact conserva_restoreCPU k _ cpu hcpu rfl rfl rfl
    · exact conserva_restoreCPU k _ cpu hcpu rfl rfl rfl
  · rcases semSignal_cases _ _ _ _ _ hsem with ⟨_, _, _, _, -, -, -, rfl⟩
    exact conserva_restoreCPU k _ cpu hcpu rfl rfl rfl
  · exact conserva_restoreCPU k _ cpu hcpu rfl rfl rfl
  · exact conserva_of_lists k _ rfl rfl rfl

/-- A scheduling round moves CPUs from one list to the other. -/
theorem conserva_planificacion (config : Config) (k k' : State) (r : Residue) (res : Int)
    (h : planificacion config k r res = some k') : Conserva k k' := by
  rcases planificacion_cases config k k' r res h with ⟨k₁, hadm, n, w, -, rfl⟩
  have hsame : k₁.cpuConectadas = k.cpuConectadas ∧ k₁.cpuExecuting = k.cpuExecuting
      ∧ k₁.consolasConectadas = k.consolasConectadas := by
    rcases admitir_cases config k k₁ r res hadm with
      rfl | ⟨_, _, _, _, -, -, -, ⟨-, _, rfl⟩ | ⟨-, _, rfl⟩⟩
    · exact ⟨rfl, rfl, rfl⟩
    · exact ⟨rfl, rfl, rfl⟩
    · exact ⟨rfl, rfl, rfl⟩
  have hmem : ∀ client : Client,
      client ∈ k₁.cpuConectadas.drop n ++ (k₁.cpuExecuting ++ k₁.cpuConectadas.take n)
        ↔ client ∈ k.cpus := by
    intro client
    have hsplit : client ∈ k₁.cpuConectadas ↔
        client ∈ k₁.cpuConectadas.take n ∨ client ∈ k₁.cpuConectadas.drop n := by
      rw [← List.mem_append, List.take_append_drop]
    rw [State.cpus, ← hsame.1, ← hsame.2.1]
    simp only [List.mem_append, hsplit]
    tauto
  refine ⟨fun client hc => (hmem client).mp hc, fun client hc => ?_, by rw [← hsame.2.2]⟩
  exact ⟨client, (hmem client).mpr hc, rfl⟩

/-- A new program is written down with its console. -/
theorem conserva_newProgram (parser : Parser) (config : Config) (k k' : State) (r : Residue)
    (program : Packet) (console : Int)
    (h : gestionDatosNewPcb parser config k r program console = some k') : Conserva k k' := by
  rcases gestionDatosNewPcb_eq parser config k k' r program console h with ⟨pcb, -, -, -, rfl⟩
  refine ⟨fun client hc => hc, fun client hc => ⟨client, hc, rfl⟩, ?_⟩
  rw [List.map_map]
  refine List.map_congr_left fun client _ => ?_
  rw [Function.comp_apply]
  split
  · rfl
  · rfl

/-- The handlers that come with no client: a scheduling round and a `kill`. -/
theorem conserva_round (parser : Parser) (config : Config) (k k' : State) (r : Residue)
    (e : Event) (he : (∃ res, e = .planificacion res) ∨ ∃ pid, e = .kill pid)
    (h : k.serve parser config (r, e) = some k') : Conserva k k' := by
  rcases he with ⟨res, rfl⟩ | ⟨pid, rfl⟩
  · exact conserva_planificacion config k k' r res h
  · rcases step_kill parser config k k' r pid h with ⟨-, rfl⟩
    exact conserva_of_lists k _ rfl rfl rfl

/-- The programs of a console are ended behind its back: only its own entry goes. -/
theorem destroyConsole_lists (k : State) (r : Residue) (client : Client) :
    (destroyConsole k r client).cpus = k.cpus
      ∧ (destroyConsole k r client).consolasConectadas =
        k.consolasConectadas.filter fun elem => !(elem.clientID == client.clientID) := by
  rcases endConsolePrograms_eq r { k with
      consolasConectadas := k.consolasConectadas.filter fun elem =>
        !(elem.clientID == client.clientID) } client.pids with ⟨ended, f, w, heq, -⟩
  unfold destroyConsole State.cpus
  rw [heq]
  exact ⟨rfl, rfl⟩

/-- What is done with a packet of a client: nothing, or one of the two handlers; or the
    descriptor is closed, and the client, if it is a console, destroyed. -/
theorem despacha_cases (parser : Parser) (config : Config) (k k' : State) (r : Residue)
    (client : Client) (packet : Packet) (siguientes : List Packet) (cerrado : Bool)
    (h : k.despacha parser config r client packet siguientes = some (k', cerrado)) :
    (cerrado = true ∧ packet.header.opcode = .OP_UNDEFINED
        ∧ (client.process = .CONSOLE ∧ k' = destroyConsole k r client
          ∨ client.process ≠ .CONSOLE ∧ k' = k))
      ∨ (cerrado = false ∧ (k' = k
        ∨ gestionDatosNewPcb parser config k r packet client.clientID = some k'
        ∨ client.process = .CPU
          ∧ ∃ rest, gestionSyscall config k r packet client siguientes = some (k', rest))) := by
  unfold State.despacha at h
  -- The connection is at its end; or it is a console's, a CPU's, or another one.
  split at h
  · rename_i hend
    split at h
    · rename_i hconsole
      simp only [Option.some.injEq, Prod.mk.injEq] at h
      exact Or.inl ⟨h.2.symm, hend, Or.inl ⟨hconsole, h.1.symm⟩⟩
    · rename_i hconsole
      simp only [Option.some.injEq, Prod.mk.injEq] at h
      exact Or.inl ⟨h.2.symm, hend, Or.inr ⟨hconsole, h.1.symm⟩⟩
  split at h
  · split at h
    · simp only [Option.map_eq_some_iff, Prod.mk.injEq] at h
      rcases h with ⟨k₁, hnew, rfl, rfl⟩
      exact Or.inr ⟨rfl, Or.inr (Or.inl hnew)⟩
    · simp only [Option.some.injEq, Prod.mk.injEq] at h
      exact Or.inr ⟨h.2.symm, Or.inl h.1.symm⟩
  split at h
  · rename_i hcpu
    simp only [Option.map_eq_some_iff, Prod.mk.injEq] at h
    rcases h with ⟨⟨k₁, rest⟩, hsyscall, rfl, rfl⟩
    exact Or.inr ⟨rfl, Or.inr (Or.inr ⟨hcpu, rest, hsyscall⟩)⟩
  · simp only [Option.some.injEq, Prod.mk.injEq] at h
    exact Or.inr ⟨h.2.symm, Or.inl h.1.symm⟩

/-! ### What is found -/

/-- A client of the lists is a CPU or a console. -/
theorem mem_clientes (k : State) (client : Client) :
    client ∈ k.clientes ↔ client ∈ k.cpus ∨ client ∈ k.consolasConectadas := by
  unfold State.clientes State.cpus
  exact List.mem_append

/-- A descriptor of a CPU of the lists is that CPU's, whoever else may have it. -/
theorem buscarProceso_cpu (k : State) (aux : Puntero) (i : Int) (h : k.deCpu i) :
    ∃ cpu ∈ k.cpus, k.buscarProceso aux i = .cliente cpu := by
  rcases hallado_some i k.cpus aux h with ⟨cpu, hmem, -, hfound⟩
  refine ⟨cpu, hmem, ?_⟩
  rw [buscarProceso_eq, State.clientes, ← State.cpus]
  -- The search has returned before it comes to the consoles.
  unfold hallado at hfound ⊢
  rw [List.find?_append]
  rcases hfind : k.cpus.find? fun elem => elem.clientID == i with _ | found
  · rcases h with ⟨other, hother, hid⟩
    exact absurd (beq_iff_eq.mpr hid) (List.find?_eq_none.mp hfind other hother)
  · rw [hfind] at hfound ⊢
    exact hfound

/-- What is connected is what is found, unless a console has the descriptor of a CPU. -/
theorem reconoce_iff (m : Conexiones) (h : Registrados m) :
    m.Reconoce ↔ ∀ i, m.abiertos i = some .CONSOLE → ¬ m.kernel.deCpu i := by
  constructor
  · intro hrec i hopen hcpu
    rcases hrec i .CONSOLE (by decide) hopen .suelto with ⟨client, hfound, -, hconsole⟩
    rcases buscarProceso_cpu m.kernel .suelto i hcpu with ⟨cpu, hmem, hfound'⟩
    obtain rfl : client = cpu := Puntero.cliente.inj (hfound.symm.trans hfound')
    rw [(h.cpu client hmem).1] at hconsole
    exact absurd hconsole (by simp only [reduceCtorEq, not_false_eq_true])
  · intro hdisjoint i process hmemory hopen aux
    rcases h.abierto i process hmemory hopen with ⟨real, hreal, hid, hprocess⟩
    rcases hallado_some i m.kernel.clientes aux ⟨real, hreal, hid⟩ with
      ⟨client, hmem, hclient, hfound⟩
    refine ⟨client, (buscarProceso_eq m.kernel aux i).trans hfound, hclient, ?_⟩
    rcases (mem_clientes m.kernel client).mp hmem with hcpu | hconsole
    · -- It is a CPU, so what is connected is not a console, and there is nothing else.
      rcases (mem_clientes m.kernel real).mp hreal with hreal | hreal
      · rw [(h.cpu client hcpu).1, ← hprocess, (h.cpu real hreal).1]
      · rw [← hprocess, (h.consola real hreal).1] at hopen
        exact absurd ⟨client, hcpu, hclient⟩ (hdisjoint i hopen)
    · rcases h.consola client hconsole with ⟨hconsola, habierto⟩
      rw [hclient, hopen, Option.some.injEq] at habierto
      rw [hconsola, habierto]

/-! ### Steps -/

theorem Conserva.deCpu (k k' : State) (h : Conserva k k') (fd : Int) :
    k'.deCpu fd ↔ k.deCpu fd := by
  constructor
  · rintro ⟨cpu, hmem, hid⟩
    exact ⟨cpu, h.cpu cpu hmem, hid⟩
  · rintro ⟨cpu, hmem, rfl⟩
    exact h.ids cpu hmem

/-- A console is on the list before and after. -/
theorem Conserva.consola (k k' : State) (h : Conserva k k') (fd : Int) (process : ProcessT) :
    (∃ client ∈ k'.consolasConectadas, client.clientID = fd ∧ client.process = process)
      ↔ ∃ client ∈ k.consolasConectadas, client.clientID = fd ∧ client.process = process := by
  have hiff : ∀ clients : List Client,
      (∃ client ∈ clients, client.clientID = fd ∧ client.process = process) ↔
        (fd, process) ∈ clients.map fun client => (client.clientID, client.process) := by
    intro clients
    simp only [List.mem_map, Prod.mk.injEq]
  rw [hiff, hiff, h.consolas]

/-- The handlers leave the lists in agreement with the descriptors. -/
theorem registrados_conserva (m : Conexiones) (k : State) (h : Registrados m)
    (hk : Conserva m.kernel k) : Registrados { m with kernel := k } where
  cpu := fun client hc => h.cpu client (hk.cpu client hc)
  consola := by
    intro client hc
    rcases (hk.consola m.kernel k client.clientID client.process).mp ⟨client, hc, rfl, rfl⟩ with
      ⟨before, hbefore, hid, hprocess⟩
    rw [← hid, ← hprocess]
    exact h.consola before hbefore
  abierto := by
    intro i process hmemory hopen
    rcases h.abierto i process hmemory hopen with ⟨client, hmem, hid, hprocess⟩
    rcases (mem_clientes m.kernel client).mp hmem with hcpu | hconsole
    · -- What stands for the CPU now is a CPU as well.
      rcases hk.ids client hcpu with ⟨cpu, hmem', hid'⟩
      refine ⟨cpu, (mem_clientes k cpu).mpr (Or.inl hmem'), hid'.trans hid, ?_⟩
      rw [(h.cpu cpu (hk.cpu cpu hmem')).1, ← (h.cpu client hcpu).1, hprocess]
    · rcases (hk.consola m.kernel k i process).mpr ⟨client, hconsole, hid, hprocess⟩ with
        ⟨after, hafter, heq⟩
      exact ⟨after, (mem_clientes k after).mpr (Or.inr hafter), heq⟩

/-- What a step does to the lists and the descriptors: the lists go on agreeing with them; a
    descriptor that is given out was free; it is a CPU's from now on if it is given to one, and
    no other is; and none becomes a console's but the one that is given to it. -/
structure Avanza (m : Conexiones) (e : Suceso) (u : Conexiones) : Prop where
  registrados : Registrados u
  libre : ∀ fd process, e.aceptado = some (fd, process) → m.abiertos fd = none
  deCpu : ∀ fd, u.kernel.deCpu fd ↔ m.kernel.deCpu fd ∨ e.aceptado = some (fd, .CPU)
  consola : ∀ fd, u.abiertos fd = some .CONSOLE →
    m.abiertos fd = some .CONSOLE ∨ e.aceptado = some (fd, .CONSOLE)
  aceptada : ∀ fd, e.aceptado = some (fd, .CONSOLE) → u.abiertos fd = some .CONSOLE

/-- An event that gives out no descriptor. -/
theorem avanza_of_conserva (m : Conexiones) (e : Suceso) (k : State) (h : Registrados m)
    (hk : Conserva m.kernel k) (he : e.aceptado = none) :
    Avanza m e { m with kernel := k } := by
  have hno : ∀ fd process, e.aceptado ≠ some (fd, process) := by
    intro fd process hfd
    rw [he] at hfd
    exact Option.some_ne_none _ hfd.symm
  refine ⟨registrados_conserva m k h hk, fun fd process hfd => absurd hfd (hno fd process),
    fun fd => ?_, fun fd hopen => Or.inl hopen, fun fd hfd => absurd hfd (hno fd .CONSOLE)⟩
  rw [or_iff_left (hno fd .CPU)]
  exact hk.deCpu m.kernel k fd

/-- A connection: a new client in the list for what it is, on a descriptor that was free. -/
theorem avanza_acepta (m u : Conexiones) (nuevo : Client) (r : Residue) (h : Registrados m)
    (hfd : m.abiertos nuevo.clientID = none)
    (hprocess : nuevo.process = .CPU ∨ nuevo.process = .CONSOLE)
    (hcpus : ∀ client, client ∈ u.kernel.cpus ↔
      client ∈ m.kernel.cpus ∨ nuevo.process = .CPU ∧ client = nuevo)
    (hconsolas : ∀ client, client ∈ u.kernel.consolasConectadas ↔
      client ∈ m.kernel.consolasConectadas ∨ nuevo.process = .CONSOLE ∧ client = nuevo)
    (hopen : u.abiertos = Function.update m.abiertos nuevo.clientID (some nuevo.process)) :
    Avanza m (.acepta nuevo.clientID nuevo.process r) u := by
  have hclientes : ∀ client, client ∈ u.kernel.clientes ↔
      client ∈ m.kernel.clientes ∨ client = nuevo := by
    intro client
    rw [mem_clientes, mem_clientes, hcpus, hconsolas]
    rcases hprocess with hcpu | hconsole
    · simp only [hcpu, reduceCtorEq, true_and, false_and, or_false]
      tauto
    · simp only [hconsole, reduceCtorEq, true_and, false_and, or_false]
      tauto
  refine ⟨⟨fun client hc => ?_, fun client hc => ?_, fun i process hmemory hi => ?_⟩,
    fun fd process hgiven => ?_, fun fd => ?_, fun fd hi => ?_, fun fd hgiven => ?_⟩
  · rw [hopen]
    rcases (hcpus client).mp hc with hc | ⟨hcpu, rfl⟩
    · refine ⟨(h.cpu client hc).1, ?_⟩
      by_cases hid : client.clientID = nuevo.clientID
      · rw [hid, Function.update_self, ne_eq, Option.some.injEq]
        rcases hprocess with hcpu | hconsole
        · simp only [hcpu, reduceCtorEq, not_false_eq_true]
        · simp only [hconsole, reduceCtorEq, not_false_eq_true]
      · rw [Function.update_of_ne hid]
        exact (h.cpu client hc).2
    · refine ⟨hcpu, ?_⟩
      rw [Function.update_self, hcpu]
      simp only [ne_eq, Option.some.injEq, reduceCtorEq, not_false_eq_true]
  · rw [hopen]
    rcases (hconsolas client).mp hc with hc | ⟨hconsole, rfl⟩
    · rcases h.consola client hc with ⟨hconsole, hi⟩
      refine ⟨hconsole, ?_⟩
      -- The consoles of the list are connected, and the descriptor was free.
      have hne : client.clientID ≠ nuevo.clientID := by
        intro hid
        rw [hid, hfd] at hi
        exact Option.some_ne_none _ hi.symm
      rw [Function.update_of_ne hne]
      exact hi
    · exact ⟨hconsole, by rw [Function.update_self, hconsole]⟩
  · rw [hopen] at hi
    by_cases hid : i = nuevo.clientID
    · rw [hid, Function.update_self, Option.some.injEq] at hi
      exact ⟨nuevo, (hclientes nuevo).mpr (Or.inr rfl), hid.symm, hi⟩
    · rw [Function.update_of_ne hid] at hi
      rcases h.abierto i process hmemory hi with ⟨client, hmem, heq⟩
      exact ⟨client, (hclientes client).mpr (Or.inl hmem), heq⟩
  · rw [Suceso.aceptado, Option.some.injEq, Prod.mk.injEq] at hgiven
    rw [← hgiven.1]
    exact hfd
  · rw [Suceso.aceptado, Option.some.injEq, Prod.mk.injEq]
    constructor
    · rintro ⟨cpu, hmem, hid⟩
      rcases (hcpus cpu).mp hmem with hmem | ⟨hcpu, rfl⟩
      · exact Or.inl ⟨cpu, hmem, hid⟩
      · exact Or.inr ⟨hid, hcpu⟩
    · rintro (⟨cpu, hmem, hid⟩ | ⟨hid, hcpu⟩)
      · exact ⟨cpu, (hcpus cpu).mpr (Or.inl hmem), hid⟩
      · exact ⟨nuevo, (hcpus nuevo).mpr (Or.inr ⟨hcpu, rfl⟩), hid⟩
  · rw [hopen] at hi
    by_cases hid : fd = nuevo.clientID
    · rw [hid, Function.update_self, Option.some.injEq] at hi
      rw [hid, ← hi]
      exact Or.inr rfl
    · rw [Function.update_of_ne hid] at hi
      exact Or.inl hi
  · rw [Suceso.aceptado, Option.some.injEq, Prod.mk.injEq] at hgiven
    rw [hopen, ← hgiven.1, Function.update_self, hgiven.2]

/-- What is connected to a descriptor and is no console has it to itself among the consoles. -/
theorem consola_ajena (m : Conexiones) (i : Int) (process : ProcessT) (h : Registrados m)
    (hi : m.abiertos i = some process) (hprocess : process ≠ .CONSOLE) :
    ∀ elem ∈ m.kernel.consolasConectadas, elem.clientID ≠ i := by
  intro elem helem hid
  have hconsole := (h.consola elem helem).2
  rw [hid, hi, Option.some.injEq] at hconsole
  exact hprocess hconsole

/-- The end of what is connected to a client's descriptor: a console goes with its entry, a CPU
    leaves it behind. -/
theorem lists_cierra (m : Conexiones) (k : State) (r : Residue) (client : Client)
    (h : Registrados m) (hclient : m.abiertos client.clientID = some client.process)
    (hk : client.process = .CONSOLE ∧ k = destroyConsole m.kernel r client
      ∨ client.process ≠ .CONSOLE ∧ k = m.kernel) :
    k.cpus = m.kernel.cpus ∧ ∀ elem, elem ∈ k.consolasConectadas ↔
      elem ∈ m.kernel.consolasConectadas ∧ elem.clientID ≠ client.clientID := by
  rcases hk with ⟨-, rfl⟩ | ⟨hcpu, rfl⟩
  · rcases destroyConsole_lists m.kernel r client with ⟨hcpus, hconsolas⟩
    refine ⟨hcpus, fun elem => ?_⟩
    rw [hconsolas, List.mem_filter]
    simp only [Bool.not_eq_true', beq_eq_false_iff_ne]
  · have hajena := consola_ajena m client.clientID client.process h hclient hcpu
    exact ⟨rfl, fun elem => (and_iff_left_of_imp (hajena elem)).symm⟩

/-- A descriptor is closed, and the consoles that had it leave the list. -/
theorem avanza_cierra (m u : Conexiones) (i fin : Int) (entrada : Int → Packet × List Packet)
    (r : Residue) (h : Registrados m) (hcpus : u.kernel.cpus = m.kernel.cpus)
    (hconsolas : ∀ elem, elem ∈ u.kernel.consolasConectadas ↔
      elem ∈ m.kernel.consolasConectadas ∧ elem.clientID ≠ fin)
    (hopen : u.abiertos = Function.update m.abiertos fin none) :
    Avanza m (.listo i entrada r) u := by
  have hbefore : ∀ fd process, u.abiertos fd = some process →
      fd ≠ fin ∧ m.abiertos fd = some process := by
    intro fd process hfd
    rw [hopen] at hfd
    by_cases hid : fd = fin
    · rw [hid, Function.update_self] at hfd
      exact absurd hfd.symm (Option.some_ne_none _)
    · rw [Function.update_of_ne hid] at hfd
      exact ⟨hid, hfd⟩
  refine ⟨⟨fun cpu hc => ?_, fun elem helem => ?_, fun fd process hmemory hfd => ?_⟩,
    fun fd process hgiven => ?_, fun fd => ?_,
    fun fd hfd => Or.inl (hbefore fd .CONSOLE hfd).2, fun fd hgiven => ?_⟩
  · rcases h.cpu cpu (hcpus ▸ hc) with ⟨hcpu, hmemory⟩
    exact ⟨hcpu, fun hfd => hmemory (hbefore cpu.clientID .MEMORY hfd).2⟩
  · rcases (hconsolas elem).mp helem with ⟨hmem, hne⟩
    rw [hopen, Function.update_of_ne hne]
    exact h.consola elem hmem
  · -- What is connected still was so before, and its entry is still there.
    rcases hbefore fd process hfd with ⟨hne, hfd⟩
    rcases h.abierto fd process hmemory hfd with ⟨elem, hmem, hid, hprocess⟩
    refine ⟨elem, (mem_clientes u.kernel elem).mpr ?_, hid, hprocess⟩
    rcases (mem_clientes m.kernel elem).mp hmem with hcpu | hconsole
    · exact Or.inl (hcpus ▸ hcpu)
    · exact Or.inr ((hconsolas elem).mpr ⟨hconsole, hid ▸ hne⟩)
  · exact absurd hgiven.symm (Option.some_ne_none _)
  · unfold State.deCpu Suceso.aceptado
    rw [hcpus, or_iff_left (Option.some_ne_none _).symm]
  · exact absurd hgiven.symm (Option.some_ne_none _)

/-- The client that is found for a CPU is one. -/
theorem mem_cpus_of_process (m : Conexiones) (h : Registrados m) (client : Client)
    (hmem : client ∈ m.kernel.clientes) (hcpu : client.process = .CPU) :
    client ∈ m.kernel.cpus := by
  rcases (mem_clientes m.kernel client).mp hmem with hmem | hconsole
  · exact hmem
  · rw [(h.consola client hconsole).1] at hcpu
    exact absurd hcpu (by simp only [reduceCtorEq, not_false_eq_true])

/-- The client that is found is one of the lists, if the pointer has been set at all. -/
theorem mem_of_hallado (i : Int) (elems : List Client) (client : Client)
    (h : hallado i elems .suelto = .cliente client) : client ∈ elems := by
  unfold hallado at h
  split at h
  · rename_i found hfound
    exact Puntero.cliente.inj h ▸ List.mem_of_find?_eq_some hfound
  · split at h
    · rename_i last hlast
      exact Puntero.cliente.inj h ▸ List.mem_of_getLast? hlast
    · exact absurd h (by simp only [reduceCtorEq, not_false_eq_true])

/-- Nobody in the lists has the descriptor of the memory server, and the last one of them is
    taken for it. -/
theorem hallado_memoria (m : Conexiones) (i : Int) (client : Client) (h : Registrados m)
    (hi : m.abiertos i = some .MEMORY)
    (hfound : hallado i m.kernel.clientes .suelto = .cliente client) :
    m.kernel.clientes.getLast? = some client := by
  have hnobody : ∀ elem ∈ m.kernel.clientes, elem.clientID ≠ i := by
    rintro elem helem rfl
    rcases (mem_clientes m.kernel elem).mp helem with hcpu | hconsole
    · exact (h.cpu elem hcpu).2 hi
    · exact consola_ajena m elem.clientID .MEMORY h hi (by decide) elem hconsole rfl
  cases hlast : m.kernel.clientes.getLast? with
  | none =>
      rw [List.getLast?_eq_none_iff] at hlast
      have hmem := mem_of_hallado i _ client hfound
      rw [hlast] at hmem
      exact absurd hmem List.not_mem_nil
  | some last =>
      rw [hallado_last i _ .suelto last hnobody hlast] at hfound
      rw [Puntero.cliente.inj hfound]

/-- A round for a descriptor whose client the kernel knows, or for the memory server's. -/
theorem avanza_listo (parser : Parser) (config : Config) (m u : Conexiones) (i : Int)
    (entrada : Int → Packet × List Packet) (r : Residue) (h : Registrados m)
    (hrec : m.Reconoce) (hfin : SinFin m (.listo i entrada r))
    (hstep : m.step parser config (.listo i entrada r) = some u) :
    Avanza m (.listo i entrada r) u := by
  simp only [Conexiones.step] at hstep
  rcases hi : m.abiertos i with _ | process
  · simp only [hi, reduceCtorEq] at hstep
  simp only [hi, State.ronda, State.atiende] at hstep
  rcases hfound : m.kernel.buscarProceso .suelto i with client | _
  · simp only [hfound] at hstep
    have hhallado := (buscarProceso_eq m.kernel .suelto i).symm.trans hfound
    have hmem := mem_of_hallado i _ client hhallado
    rcases hdespacha : m.kernel.despacha parser config r client (entrada client.clientID).1
      (entrada client.clientID).2 with _ | ⟨k, cerrado⟩
    · simp only [hdespacha, reduceCtorEq] at hstep
    rcases despacha_cases parser config m.kernel k r client _ _ cerrado hdespacha with
      ⟨rfl, hend, hk⟩ | ⟨rfl, hk⟩
    · simp only [hdespacha, Option.some.injEq] at hstep
      rw [← hstep]
      by_cases hmemory : process = .MEMORY
      · -- The client is no console, so it stays where it is.
        rw [hmemory] at hi
        have hlast := hallado_memoria m i client h hi hhallado
        rcases hk with ⟨hconsole, -⟩ | ⟨-, rfl⟩
        · exact absurd hend (hfin hi client hlast hconsole)
        · have hajena := consola_ajena m i .MEMORY h hi (by decide)
          exact avanza_cierra m _ i i entrada r h rfl
            (fun elem => (and_iff_left_of_imp (hajena elem)).symm) rfl
      · rcases hrec i process hmemory hi .suelto with ⟨real, hreal, rfl, hprocess⟩
        obtain rfl : client = real := Puntero.cliente.inj (hfound.symm.trans hreal)
        rcases lists_cierra m k r client h (hprocess ▸ hi) hk with ⟨hcpus, hconsolas⟩
        exact avanza_cierra m _ _ _ entrada r h hcpus hconsolas rfl
    · simp only [hdespacha, Option.some.injEq] at hstep
      rw [← hstep]
      refine avanza_of_conserva m _ k h ?_ rfl
      rcases hk with rfl | hnew | ⟨hcpu, rest, hsyscall⟩
      · exact conserva_of_lists m.kernel _ rfl rfl rfl
      · exact conserva_newProgram parser config m.kernel k r _ _ hnew
      · have hcpus := mem_cpus_of_process m h client hmem hcpu
        exact conserva_syscall config m.kernel k r client _ _ rest hcpus hsyscall
  · simp only [hfound, reduceCtorEq] at hstep

/-- A console whose end has been found in a round for the memory server's descriptor is not known
    any more, and its own descriptor is open. -/
theorem not_reconoce_of_fin (parser : Parser) (config : Config) (m u : Conexiones) (e : Suceso)
    (h : Registrados m) (hfin : ¬ SinFin m e) (hstep : m.step parser config e = some u) :
    ¬ u.Reconoce := by
  cases e with
  | listo i entrada r =>
      simp only [SinFin, not_forall, not_not] at hfin
      rcases hfin with ⟨hi, client, hlast, hconsole, hend⟩
      have hmem := List.mem_of_getLast? hlast
      have hlisted : client ∈ m.kernel.consolasConectadas := by
        rcases (mem_clientes m.kernel client).mp hmem with hcpu | hlisted
        · rw [(h.cpu client hcpu).1] at hconsole
          exact absurd hconsole (by decide)
        · exact hlisted
      have hopen := (h.consola client hlisted).2
      have hne := consola_ajena m i .MEMORY h hi (by decide) client hlisted
      -- The round acts on this console.
      rcases hfound : m.kernel.buscarProceso .suelto i with found | _
      · have hlast' := hallado_memoria m i found h hi
          ((buscarProceso_eq m.kernel .suelto i).symm.trans hfound)
        obtain rfl : client = found := Option.some.inj (hlast.symm.trans hlast')
        simp only [Conexiones.step, hi, State.ronda, State.atiende, hfound, State.despacha,
          if_pos hend, if_pos hconsole, Option.some.injEq] at hstep
        rw [← hstep]
        intro hrec
        rcases destroyConsole_lists m.kernel r client with ⟨hcpus, hconsolas⟩
        rcases hrec client.clientID .CONSOLE (by decide)
          ((Function.update_of_ne hne none _).trans hopen) .suelto with
          ⟨other, hother, hid, hprocess⟩
        rw [buscarProceso_eq] at hother
        rcases (mem_clientes _ other).mp (mem_of_hallado _ _ other hother) with hcpu | hleft
        · rw [hcpus] at hcpu
          rw [(h.cpu other hcpu).1] at hprocess
          exact absurd hprocess (by decide)
        · rw [hconsolas, List.mem_filter, hid, beq_self_eq_true] at hleft
          exact absurd hleft.2 (by decide)
      · simp only [Conexiones.step, hi, State.ronda, State.atiende, hfound, reduceCtorEq] at hstep
  | _ => exact absurd trivial hfin

/-- A descriptor is given out. -/
theorem avanza_nuevo (parser : Parser) (config : Config) (m u : Conexiones) (fd : Int)
    (process : ProcessT) (r : Residue) (h : Registrados m)
    (hstep : m.step parser config (.acepta fd process r) = some u) :
    Avanza m (.acepta fd process r) u := by
  simp only [Conexiones.step] at hstep
  rcases hfd : m.abiertos fd with _ | other
  · simp only [hfd] at hstep
    cases process with
    | CONSOLE =>
        simp only [Conexiones.sirve, State.serve, State.step, Option.map_some,
          Option.some.injEq] at hstep
        refine avanza_acepta m u { clientID := fd, process := .CONSOLE, pids := [] } r h hfd
          (Or.inr rfl) (fun client => ?_) (fun client => ?_) (by rw [← hstep])
        · rw [← hstep]
          simp only [reduceCtorEq, false_and, or_false]
          exact Iff.rfl
        · rw [← hstep]
          simp only [true_and, List.mem_append, List.mem_singleton]
    | CPU =>
        simp only [Conexiones.sirve, State.serve, State.step, Option.map_some,
          Option.some.injEq] at hstep
        refine avanza_acepta m u { clientID := fd, process := .CPU, pids := [] } r h hfd
          (Or.inl rfl) (fun client => ?_) (fun client => ?_) (by rw [← hstep])
        · rw [← hstep]
          simp only [State.cpus, State.send, true_and, List.mem_append, List.mem_singleton]
          tauto
        · rw [← hstep]
          simp only [State.send, reduceCtorEq, false_and, or_false]
    | _ =>
        -- It is closed before it is written down.
        simp only [Option.some.injEq] at hstep
        rw [← hstep]
        refine ⟨h, fun fd' process hgiven => ?_, fun fd' => ?_, fun fd' hi => Or.inl hi,
          fun fd' hgiven => ?_⟩
        · rw [Suceso.aceptado, Option.some.injEq, Prod.mk.injEq] at hgiven
          rw [← hgiven.1]
          exact hfd
        · simp only [Suceso.aceptado, Option.some.injEq, Prod.mk.injEq, reduceCtorEq,
            and_false, or_false]
        · simp only [Suceso.aceptado, Option.some.injEq, Prod.mk.injEq, reduceCtorEq,
            and_false] at hgiven
  · simp only [hfd, reduceCtorEq] at hstep

/-- A step, where the kernel knows what is connected and does not lose a console. -/
theorem registrados_step (parser : Parser) (config : Config) (m u : Conexiones) (e : Suceso)
    (h : Registrados m) (hrec : m.Reconoce) (hfin : SinFin m e)
    (hstep : m.step parser config e = some u) : Avanza m e u := by
  cases e with
  | acepta fd process r => exact avanza_nuevo parser config m u fd process r h hstep
  | listo i entrada r => exact avanza_listo parser config m u i entrada r h hrec hfin hstep
  | planificacion res r =>
      simp only [Conexiones.step, Conexiones.sirve, Option.map_eq_some_iff] at hstep
      rcases hstep with ⟨k, hserve, rfl⟩
      refine avanza_of_conserva m _ k h ?_ rfl
      exact conserva_round parser config m.kernel k r _ (Or.inl ⟨res, rfl⟩) hserve
  | kill pid r =>
      simp only [Conexiones.step, Conexiones.sirve, Option.map_eq_some_iff] at hstep
      rcases hstep with ⟨k, hserve, rfl⟩
      refine avanza_of_conserva m _ k h ?_ rfl
      exact conserva_round parser config m.kernel k r _ (Or.inr ⟨pid, rfl⟩) hserve

/-- After a step the kernel knows what is connected if the step has given to a console no
    descriptor of a CPU. -/
theorem reconoce_step (m u : Conexiones) (e : Suceso) (h : Registrados m) (hrec : m.Reconoce)
    (hstep : Avanza m e u) : u.Reconoce ↔ Libre m e := by
  rw [reconoce_iff u hstep.registrados]
  constructor
  · intro hdisjoint fd hfd hcpu
    exact hdisjoint fd (hstep.aceptada fd hfd) ((hstep.deCpu fd).mpr (Or.inl hcpu))
  · intro hlibre fd hopen hcpu
    rcases hstep.consola fd hopen with hbefore | hnew
    · rcases (hstep.deCpu fd).mp hcpu with hcpu | hgiven
      · exact (reconoce_iff m h).mp hrec fd hbefore hcpu
      · -- What is given out was not connected to anything.
        rw [hstep.libre fd .CPU hgiven] at hbefore
        exact Option.some_ne_none _ hbefore.symm
    · rcases (hstep.deCpu fd).mp hcpu with hcpu | hgiven
      · exact hlibre fd hnew hcpu
      · rw [hnew, Option.some.injEq, Prod.mk.injEq] at hgiven
        exact absurd hgiven.2 (by simp only [reduceCtorEq, not_false_eq_true])

/-- After a step a console may get what it might before, but for the descriptor the step has
    given to a CPU. -/
theorem libre_step (m u : Conexiones) (e e' : Suceso) (hstep : Avanza m e u) :
    Libre u e' ↔ Libre m e' ∧ SinReuso e e' := by
  constructor
  · intro hlibre
    refine ⟨fun fd hfd hcpu => ?_, fun fd hcpu hfd => ?_⟩
    · exact hlibre fd hfd ((hstep.deCpu fd).mpr (Or.inl hcpu))
    · exact hlibre fd hfd ((hstep.deCpu fd).mpr (Or.inr hcpu))
  · rintro ⟨hlibre, hreuso⟩ fd hfd hcpu
    rcases (hstep.deCpu fd).mp hcpu with hcpu | hgiven
    · exact hlibre fd hfd hcpu
    · exact hreuso fd hgiven hfd

/-! ### Runs -/

section Runs

variable (parser : Parser) (config : Config) (multipgLevel memfd : Int) (semInit : List Int)
  (shared : Nat)

/-- At start-up only the memory server is connected. -/
theorem memoria_inicio (i : Int) (process : ProcessT) (hmemory : process ≠ .MEMORY) :
    (Conexiones.inicio multipgLevel memfd semInit shared).abiertos i ≠ some process := by
  intro hi
  unfold Conexiones.inicio at hi
  by_cases hid : i = memfd
  · simp only [hid, Function.update_self, Option.some.injEq] at hi
    exact hmemory hi.symm
  · simp only [Function.update_of_ne hid, reduceCtorEq] at hi

theorem registrados_inicio :
    Registrados (Conexiones.inicio multipgLevel memfd semInit shared) where
  cpu := fun _ hc => absurd hc List.not_mem_nil
  consola := fun _ hc => absurd hc List.not_mem_nil
  abierto := fun i process hmemory hi =>
    absurd hi (memoria_inicio multipgLevel memfd semInit shared i process hmemory)

theorem reconoce_inicio : (Conexiones.inicio multipgLevel memfd semInit shared).Reconoce :=
  fun i process hmemory hi =>
    absurd hi (memoria_inicio multipgLevel memfd semInit shared i process hmemory)

/-- In every run of the server, whatever is sent and answered, the kernel knows at all times
    what each of its descriptors but the memory server's is connected to exactly if no
    descriptor that has been given to a CPU is given to a console afterwards, and no round of
    the memory server's descriptor finds a console at its end. -/
theorem descriptors_recognized (t : Conexiones) (es : List Suceso)
    (hrun : run (Conexiones.step parser config)
      (Conexiones.inicio multipgLevel memfd semInit shared) es = some t) :
    Throughout (Conexiones.step parser config) Conexiones.Reconoce
        (Conexiones.inicio multipgLevel memfd semInit shared) es
      ↔ es.Pairwise SinReuso ∧ Along (Conexiones.step parser config) SinFin
        (Conexiones.inicio multipgLevel memfd semInit shared) es := by
  have hinicio := registrados_inicio multipgLevel memfd semInit shared
  have hreconoce := reconoce_inicio multipgLevel memfd semInit shared
  have halong := throughout_iff_along (Conexiones.step parser config)
    (fun m e => SinFin m e ∧ Libre m e) Registrados Conexiones.Reconoce
    (fun m e u h hrec hrec' hstep => by
      by_cases hfin : SinFin m e
      · exact (registrados_step parser config m u e h hrec hfin hstep).registrados
      · exact absurd hrec' (not_reconoce_of_fin parser config m u e h hfin hstep))
    (fun m e u h hrec hstep => by
      by_cases hfin : SinFin m e
      · rw [and_iff_right hfin]
        exact reconoce_step m u e h hrec (registrados_step parser config m u e h hrec hfin hstep)
      · exact iff_of_false (not_reconoce_of_fin parser config m u e h hfin hstep)
          fun hboth => hfin hboth.1)
    _ t es hinicio hreconoce hrun
  have hpairwise := along_iff_pairwise (Conexiones.step parser config) SinFin Libre SinReuso
    (fun m => Registrados m ∧ m.Reconoce)
    (fun m e u h hfin hlibre hstep => by
      have havanza := registrados_step parser config m u e h.1 h.2 hfin hstep
      refine ⟨⟨havanza.registrados, (reconoce_step m u e h.1 h.2 havanza).mpr hlibre⟩, ?_⟩
      exact fun e' => libre_step m u e e' havanza)
    _ t es ⟨hinicio, hreconoce⟩ hrun
  rw [halong, hpairwise, and_comm]
  -- At start-up no descriptor is a CPU's.
  refine and_congr_left' (and_iff_left fun e _ fd _ hcpu => ?_)
  rcases hcpu with ⟨cpu, hmem, -⟩
  exact List.not_mem_nil hmem

end Runs

/-- A round for descriptor `i`, with all connections at their end. -/
def sampleFin (i : Int) : Suceso :=
  .listo i (fun _ => ({ header := protocolHeader .KERNEL .OP_UNDEFINED, payload := [] }, []))
    sampleResidue

/-- A CPU gets the descriptor of a console, or a console that of a CPU. -/
def sampleTurno (primero segundo : ProcessT) : List Suceso :=
  [.acepta 5 primero sampleResidue, sampleFin 5, .acepta 5 segundo sampleResidue]

/-- The CPU is known for what it is, and the console is not. Neither is a console with the
    memory server, at 4, gone. -/
theorem sampleTurno_recognized :
    Throughout (Conexiones.step sampleParser sampleConfig) Conexiones.Reconoce
        (Conexiones.inicio 3 4 [1] 1) (sampleTurno .CONSOLE .CPU)
      ∧ ¬ Throughout (Conexiones.step sampleParser sampleConfig) Conexiones.Reconoce
        (Conexiones.inicio 3 4 [1] 1) (sampleTurno .CPU .CONSOLE)
      ∧ ¬ Throughout (Conexiones.step sampleParser sampleConfig) Conexiones.Reconoce
        (Conexiones.inicio 3 4 [1] 1) [.acepta 5 .CONSOLE sampleResidue, sampleFin 4] := by
  refine ⟨?_, ?_, ?_⟩
  · rw [descriptors_recognized sampleParser sampleConfig 3 4 [1] 1 _ _ rfl]
    exact ⟨by simp [sampleTurno, sampleFin, SinReuso, Suceso.aceptado], by decide⟩
  · rw [descriptors_recognized sampleParser sampleConfig 3 4 [1] 1 _ _ rfl]
    simp [sampleTurno, sampleFin, SinReuso, Suceso.aceptado]
  · rw [descriptors_recognized sampleParser sampleConfig 3 4 [1] 1 _ _ rfl]
    exact fun hboth => absurd hboth.2 (by decide)

end Kernel

end Esther
