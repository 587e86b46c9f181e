import Esther.Core.Events

/-!
# What the Kernel's Functions Do

For every function of the kernel, everything it can do to the state, once. The
invariants are derived from these lemmas and never unfold the functions.

The packets the kernel sends are left out of most statements: a function that
only sends returns the state it was given except for `wire`.

## Theorems

* `storeCode_eq`, `storeStack_eq`: Sending changes the wire only.
* `endProgram_eq`: Ending a program.
* `admitir_cases`, `admitir_idle`, `admitir_pops`: The first half of a round.
* `despachar_rule`, `despachar_eq`, `planificacion_cases`: A scheduling round.
* `gestionDatosNewPcb_eq`, `gestionDatosNewPcb_cases`: A new program.
* `semWait_cases`, `semSignal_cases`: The semaphore operations.
* `gestionSyscall_programEnd`, `gestionSyscall_semaphore`, `gestionSyscall_sharedVar`,
  `gestionSyscall_cases`, `step_syscall`, `step_syscall_cases`: A message of a CPU.
* `gestionSyscall_numbers`: What no message changes.
* `step_connectConsole`, `step_connectCpu`, `step_destroyConsole`, `step_kill`: The other
  events, for `serve` as well, which is the same step there.
* `serve_syscall`: A message of a CPU, whether or not it is complete.
-/

namespace Esther

namespace Kernel

open Cells Serial

/-- Storing the code of a program only sends. -/
theorem storeCode_eq (config : Config) (r : Residue) (pcb : Pcb) (code : List UInt8) (k k' : State)
    (n : Nat) (pag tam : Int) (h : storeCode config r pcb code k n pag tam = some k') :
    ∃ w, k' = { k with wire := w } := by
  induction n generalizing k pag tam with
  | zero =>
      rw [storeCode, Option.some.injEq] at h
      exact ⟨k.wire, h.symm⟩
  | succ n ih =>
      simp only [storeCode] at h
      split at h
      · rcases ih _ _ _ h with ⟨w, hw⟩
        exact ⟨w, hw⟩
      · exact absurd h (by simp only [reduceCtorEq, not_false_eq_true])

theorem storeStack_eq (r : Residue) (pcb : Pcb) (k k' : State)
    (h : storeStack r pcb k = some k') : ∃ w, k' = { k with wire := w } := by
  simp only [storeStack] at h
  split at h
  · exact absurd h (by simp only [reduceCtorEq, not_false_eq_true])
  · rw [Option.some.injEq] at h
    exact ⟨_, h.symm⟩

/-- The requests pending after a process has ended. -/
def orphaned (r : Residue) (pid : Int) (solicitudes : List (List Pcb)) : List (List Pcb) :=
  solicitudes.map fun queue => queue.map fun aux => if pid == aux.idProcess then r.freed aux else aux

/-- Ending a program takes its blocks out of every queue and puts one at the end
    of `pcb_exit`. -/
theorem endProgram_eq (k : State) (r : Residue) (pcb : Pcb) (code : Int) :
    ∃ w, k.endProgram r pcb code = { k with
      solicitudesSem := orphaned r pcb.idProcess k.solicitudesSem
      pcbNew := removePid pcb.idProcess k.pcbNew
      pcbReady := removePid pcb.idProcess k.pcbReady
      pcbExec := removePid pcb.idProcess k.pcbExec
      pcbBlock := removePid pcb.idProcess k.pcbBlock
      pcbExit := removePid pcb.idProcess k.pcbExit ++ [{ pcb with exitCode := code }]
      wire := w } := by
  simp only [State.endProgram, State.pcbRemove]
  split
  · exact ⟨_, rfl⟩
  · exact ⟨_, rfl⟩

/-- The process a round admits, as it enters `pcb_ready`. -/
def admitted (config : Config) (pcb : Pcb) (code : List UInt8) : Pcb :=
  { pcb with pagesCode := requestedPages config code.length - config.stackSize }

/-- The first half of a round admits the oldest new program, gives up on it, or
    does nothing. -/
theorem admitir_cases (config : Config) (k k' : State) (r : Residue) (res : Int)
    (h : admitir config k r res = some k') :
    k' = k ∨ ∃ pcb pcbNew code codesMs, k.pcbNew = pcb :: pcbNew ∧ k.codesMs = code :: codesMs
      ∧ (k.pcbReady.length + k.pcbExec.length + k.pcbBlock.length : Int) < k.multipgLevel
      ∧ ((res ≠ 0 ∧ ∃ w, k' = { k with
            pcbNew := pcbNew
            codesMs := codesMs
            pcbReady := k.pcbReady ++ [admitted config pcb code]
            wire := w })
        ∨ (res = 0 ∧ ∃ w, k' = { k with
            pcbNew := pcbNew
            codesMs := codesMs
            pcbExit := k.pcbExit ++ [{ pcb with exitCode := -1 }]
            wire := w })) := by
  rw [admitir] at h
  rcases hnew : k.pcbNew with _ | ⟨pcb, pcbNew⟩
  · simp only [hnew, Option.some.injEq] at h
    exact Or.inl h.symm
  · simp only [hnew] at h
    split at h
    · rename_i hlevel
      -- A process is taken with the first text of the queue, which the source does not check for.
      rcases hcodes : k.codesMs with _ | ⟨code, codesMs⟩
      · simp only [hcodes] at h
        exact absurd h (by simp only [reduceCtorEq, not_false_eq_true])
      · simp only [hcodes] at h
        refine Or.inr ⟨pcb, pcbNew, code, codesMs, rfl, rfl, hlevel, ?_⟩
        split at h
        · rename_i hres
          split at h
          · rename_i k₁ hstore
            -- The pages are granted: the text and the stack are sent, which changes the wire only.
            rcases storeCode_eq _ _ _ _ _ _ _ _ _ hstore with ⟨w₁, hw₁⟩
            rcases storeStack_eq _ _ _ _ h with ⟨w₂, hw₂⟩
            exact Or.inl ⟨hres, w₂, by rw [hw₂, hw₁]; rfl⟩
          · exact absurd h (by simp only [reduceCtorEq, not_false_eq_true])
        · rename_i hres
          rw [Option.some.injEq] at h
          -- They are refused, and the process leaves with its exit code.
          exact Or.inr ⟨not_not.mp hres, _, h.symm⟩
    · rw [Option.some.injEq] at h
      exact Or.inl h.symm

/-- A round without a new program, or without room for one, admits nobody. -/
theorem admitir_idle (config : Config) (k k' : State) (r : Residue) (res : Int)
    (hidle : k.pcbNew = []
      ∨ ¬ (k.pcbReady.length + k.pcbExec.length + k.pcbBlock.length : Int) < k.multipgLevel)
    (h : admitir config k r res = some k') : k' = k := by
  unfold admitir at h
  rcases hnew : k.pcbNew with _ | ⟨pcb, pcbNew⟩
  · simp only [hnew, Option.some.injEq] at h
    exact h.symm
  · rcases hidle with hnil | hlevel
    · exact absurd (hnew.symm.trans hnil) (List.cons_ne_nil _ _)
    · simp only [hnew, if_neg hlevel, Option.some.injEq] at h
      exact h.symm

/-- Any other round takes the oldest new program. -/
theorem admitir_pops (config : Config) (k k' : State) (r : Residue) (res : Int) (pcb : Pcb)
    (pcbNew : List Pcb) (hnew : k.pcbNew = pcb :: pcbNew)
    (hlevel : (k.pcbReady.length + k.pcbExec.length + k.pcbBlock.length : Int) < k.multipgLevel)
    (h : admitir config k r res = some k') : k'.pcbNew = pcbNew := by
  simp only [admitir, hnew, if_pos hlevel] at h
  split at h
  · exact absurd h (by simp)
  split at h
  · split at h
    · rename_i k₁ hstore
      rcases storeCode_eq _ _ _ _ _ _ _ _ _ hstore with ⟨w₁, hw₁⟩
      rcases storeStack_eq _ _ _ _ h with ⟨w₂, hw₂⟩
      rw [hw₂, hw₁]
      rfl
    · exact absurd h (by simp)
  · rw [Option.some.injEq] at h
    rw [← h]
    rfl

/-- The rule of the second half of a round. What holds of the state and the two lists, and is
    kept when the first process goes to the first CPU, holds in the end, when one of the
    lists is empty. -/
theorem despachar_rule (r : Residue) (Inv : State → List Pcb → List Client → Prop)
    (hstep : ∀ k pcb ready cpu cpus packet, sendPcb r pcb = some packet →
      Inv k (pcb :: ready) (cpu :: cpus) →
      Inv { k with
        pcbReady := ready
        cpuConectadas := cpus
        wire := Function.update k.wire cpu.clientID (k.wire cpu.clientID ++ [packet])
        pcbExec := k.pcbExec ++ [pcb]
        cpuExecuting := k.cpuExecuting ++ [cpu] } ready cpus)
    (k u : State) (ready : List Pcb) (cpus : List Client) (hk : Inv k ready cpus)
    (h : despachar r k ready cpus = some u) :
    ∃ ready cpus, (ready = [] ∨ cpus = []) ∧ Inv u ready cpus := by
  induction ready generalizing k cpus with
  | nil =>
      simp only [despachar, Option.some.injEq] at h
      exact ⟨[], cpus, Or.inl rfl, h ▸ hk⟩
  | cons pcb ready ih =>
      cases cpus with
      | nil =>
          simp only [despachar, Option.some.injEq] at h
          exact ⟨pcb :: ready, [], Or.inr rfl, h ▸ hk⟩
      | cons cpu cpus =>
          rw [despachar] at h
          split at h
          · rename_i packet hpacket
            exact ih _ cpus (hstep k pcb ready cpu cpus packet hpacket hk) h
          · exact absurd h (by simp only [reduceCtorEq, not_false_eq_true])

/-- The second half of a round hands the oldest ready processes to the CPUs that
    have waited longest, as many as there are of both. -/
theorem despachar_eq (r : Residue) (k k' : State) (ready : List Pcb) (cpus : List Client)
    (hready : k.pcbReady = ready) (hcpus : k.cpuConectadas = cpus)
    (h : despachar r k ready cpus = some k') :
    ∃ n w, n = min ready.length cpus.length ∧ k' = { k with
      pcbReady := ready.drop n
      pcbExec := k.pcbExec ++ ready.take n
      cpuConectadas := cpus.drop n
      cpuExecuting := k.cpuExecuting ++ cpus.take n
      wire := w } := by
  induction ready generalizing k cpus with
  | nil =>
      simp only [despachar, Option.some.injEq] at h
      refine ⟨0, k.wire, (Nat.zero_min _).symm, ?_⟩
      rw [← h]
      simp only [List.drop_zero, List.take_zero, List.append_nil, ← hcpus]
      rw [← hready]
  | cons pcb ready ih =>
      cases cpus with
      | nil =>
          simp only [despachar, Option.some.injEq] at h
          refine ⟨0, k.wire, (Nat.min_zero _).symm, ?_⟩
          rw [← h]
          simp only [List.drop_zero, List.take_zero, List.append_nil, ← hready]
          rw [← hcpus]
      | cons cpu cpus =>
          rw [despachar] at h
          split at h
          · -- One process goes to one processor, and the induction is over those left.
            rcases ih _ cpus rfl rfl h with ⟨n, w, hn, hk'⟩
            refine ⟨n + 1, w, ?_, ?_⟩
            · rw [List.length_cons, List.length_cons, Nat.succ_min_succ, hn]
            · rw [hk']
              simp only [State.send, List.drop_succ_cons, List.take_succ_cons, List.append_assoc,
                List.singleton_append]
          · exact absurd h (by simp only [reduceCtorEq, not_false_eq_true])

/-- A scheduling round. -/
theorem planificacion_cases (config : Config) (k k' : State) (r : Residue) (res : Int)
    (h : planificacion config k r res = some k') :
    ∃ k₁, admitir config k r res = some k₁ ∧ ∃ n w,
      n = min k₁.pcbReady.length k₁.cpuConectadas.length ∧ k' = { k₁ with
        pcbReady := k₁.pcbReady.drop n
        pcbExec := k₁.pcbExec ++ k₁.pcbReady.take n
        cpuConectadas := k₁.cpuConectadas.drop n
        cpuExecuting := k₁.cpuExecuting ++ k₁.cpuConectadas.take n
        wire := w } := by
  rw [planificacion] at h
  split at h
  · rename_i k₁ hadm
    exact ⟨k₁, hadm, despachar_eq r k₁ k' _ _ rfl rfl h⟩
  · exact absurd h (by simp only [reduceCtorEq, not_false_eq_true])

/-- A new program gets the next number, an empty stack, and a place at the end of
    `pcb_new`, its code one at the end of `codes_ms`, and its number a place in the list
    of its console, which is told. -/
theorem gestionDatosNewPcb_eq (parser : Parser) (config : Config) (k k' : State) (r : Residue)
    (program : Packet) (console : Int)
    (h : gestionDatosNewPcb parser config k r program console = some k') :
    ∃ pcb, pcb.idProcess = k.generatorPid + 1 ∧ pcb.stack = [] ∧ pcb.quantum = config.quantum
      ∧ k' = { k with
        generatorPid := k.generatorPid + 1
        codesMs := k.codesMs ++ [program.payload]
        consolasConectadas := k.consolasConectadas.map fun client =>
          if client.clientID == console then { client with pids := client.pids ++ [pcb.idProcess] }
          else client
        pcbNew := k.pcbNew ++ [pcb]
        wire := (k.send console (protocolPacket
          { protocolHeader .KERNEL .OP_KE_SEND_PID with usrpid := byte pcb.idProcess }
          r.buffer 0)).wire } := by
  simp only [gestionDatosNewPcb] at h
  split at h
  · rename_i k₁ pcb hcrear
    simp only [crearPcbProceso] at hcrear
    split at hcrear
    · exact absurd hcrear (by simp only [reduceCtorEq, not_false_eq_true])
    split at hcrear
    · rw [Option.some.injEq, Prod.mk.injEq] at hcrear
      rw [Option.some.injEq] at h
      refine ⟨pcb, ?_, ?_, ?_, by rw [← h, ← hcrear.1]; rfl⟩
      · rw [← hcrear.2]
      · rw [← hcrear.2]
      · rw [← hcrear.2]
    · exact absurd hcrear (by simp only [reduceCtorEq, not_false_eq_true])
  · exact absurd h (by simp only [reduceCtorEq, not_false_eq_true])

/-- The same, without what the console is told. -/
theorem gestionDatosNewPcb_cases (parser : Parser) (config : Config) (k k' : State) (r : Residue)
    (program : Packet) (console : Int)
    (h : gestionDatosNewPcb parser config k r program console = some k') :
    ∃ pcb consolas w, pcb.idProcess = k.generatorPid + 1 ∧ pcb.stack = []
      ∧ pcb.quantum = config.quantum ∧ k' = { k with
        generatorPid := k.generatorPid + 1
        codesMs := k.codesMs ++ [program.payload]
        consolasConectadas := consolas
        pcbNew := k.pcbNew ++ [pcb]
        wire := w } := by
  rcases gestionDatosNewPcb_eq parser config k k' r program console h with
    ⟨pcb, hpid, hstack, hquantum, heq⟩
  exact ⟨pcb, _, _, hpid, hstack, hquantum, heq⟩

/-- A wait is granted at once, or blocks its caller. -/
theorem semWait_cases (k k' : State) (pcb : Pcb) (i : Nat) (h : k.semWait pcb i = some k') :
    ∃ value queue, k.semAnsisop[i]? = some value ∧ k.solicitudesSem[i]? = some queue
      ∧ ((value - 1 > 0 ∧ k' = { k with
            semAnsisop := k.semAnsisop.set i (value - 1)
            pcbReady := k.pcbReady ++ [pcb] })
        ∨ (¬ value - 1 > 0 ∧ k' = { k with
            semAnsisop := k.semAnsisop.set i (value - 1)
            pcbBlock := k.pcbBlock ++ [pcb]
            solicitudesSem := k.solicitudesSem.set i (queue ++ [pcb]) })) := by
  simp only [State.semWait] at h
  split at h
  · rename_i value queue hvalue hqueue
    refine ⟨value, queue, hvalue, hqueue, ?_⟩
    split at h
    · exact absurd h (by simp only [reduceCtorEq, not_false_eq_true])
    split at h
    · rename_i hpos
      rw [Option.some.injEq] at h
      exact Or.inl ⟨hpos, h.symm⟩
    · rename_i hpos
      rw [Option.some.injEq] at h
      exact Or.inr ⟨hpos, h.symm⟩
  · exact absurd h (by simp only [reduceCtorEq, not_false_eq_true])

/-- What is read of the block that is freed has the number of its process still, and so all
    blocks of the process are removed. -/
theorem removeReady_of_same (pcbReady leido : Pcb) (list : List Pcb)
    (h : leido.idProcess = pcbReady.idProcess) :
    removeReady pcbReady leido list = removePid pcbReady.idProcess list := by
  induction list with
  | nil => rfl
  | cons pcbBlock list ih =>
      have hcons : removePid pcbReady.idProcess (pcbBlock :: list)
          = if pcbEquals pcbReady pcbBlock then removePid pcbReady.idProcess list
            else pcbBlock :: removePid pcbReady.idProcess list := by
        unfold removePid pcbEquals
        rw [List.filter_cons]
        cases pcbReady.idProcess == pcbBlock.idProcess <;> rfl
      rw [removeReady, hcons, ih, h]

theorem readBehind_idProcess (r : Residue) (queue : List Pcb) (pcbReady : Pcb)
    (h : (r.freed pcbReady).idProcess = pcbReady.idProcess) :
    (readBehind r queue pcbReady).idProcess = pcbReady.idProcess := by
  unfold readBehind
  split
  · rfl
  · exact h

theorem removeReady_sublist (pcbReady leido : Pcb) (list : List Pcb) :
    (removeReady pcbReady leido list).Sublist list := by
  induction list with
  | nil => exact List.Sublist.refl _
  | cons pcbBlock list ih =>
      rw [removeReady]
      split
      · exact List.filter_sublist.cons pcbBlock
      · exact ih.cons_cons pcbBlock

/-- A signal makes the process of the oldest request ready, its caller's own
    request being the newest. -/
theorem semSignal_cases (k k' : State) (r : Residue) (pcb : Pcb) (i : Nat)
    (h : k.semSignal r pcb i = some k') :
    ∃ value queue head rest, k.semAnsisop[i]? = some value ∧ k.solicitudesSem[i]? = some queue
      ∧ queue ++ [pcb] = head :: rest ∧ k' = { k with
        semAnsisop := k.semAnsisop.set i (value + 1)
        pcbReady := k.pcbReady ++
          [if (k.pcbBlock ++ [pcb]).any fun pcbBlock => pcbEquals head pcbBlock
            then r.freed head else head]
        pcbBlock := removeReady head (readBehind r queue head) (k.pcbBlock ++ [pcb])
        solicitudesSem := (k.solicitudesSem.set i rest).map fun aux =>
          aux.map (requestLeft r head (readBehind r queue head) (k.pcbBlock ++ [pcb])) } := by
  simp only [State.semSignal] at h
  split at h
  · rename_i value queue hvalue hqueue
    split at h
    · exact absurd h (by simp only [reduceCtorEq, not_false_eq_true])
    split at h
    · exact absurd h (by simp only [reduceCtorEq, not_false_eq_true])
    · rename_i head rest hsplit
      rw [Option.some.injEq] at h
      exact ⟨value, queue, head, rest, hvalue, hqueue, hsplit, h.symm⟩
  · exact absurd h (by simp only [reduceCtorEq, not_false_eq_true])

/-- The kernel once it has taken the process of a message out of `pcb_exec`. -/
def State.leaveExec (k : State) (pid : Int) : State :=
  { k with pcbExec := removePid pid k.pcbExec }

/-- The process of a message, decoded. -/
def syscallPcb (r : Residue) (packet : Packet) : Pcb :=
  serialUnpackPcb (packet.pointer (r.payload 0))

/-- The message about a semaphore asks for a wait. -/
def asksWait (r : Residue) (packetSem : Packet) : Bool :=
  packetSem.pointer (r.payload 1) 0 == 119

/-- A message that ends its process. -/
theorem gestionSyscall_programEnd (config : Config) (k : State) (r : Residue) (cpu : Client)
    (packet : Packet) (siguientes : List Packet)
    (hop : packet.header.opcode = .OP_CPU_PROGRAM_END) :
    gestionSyscall config k r packet cpu siguientes
      = some (((k.leaveExec (syscallPid r packet)).endProgram r (syscallPcb r packet)
          exitSuccessful).restoreCPU cpu, siguientes) := by
  simp only [gestionSyscall, hop]
  rfl

/-- A message about a semaphore asks for a wait or a signal. -/
theorem gestionSyscall_semaphore (config : Config) (k k' : State) (r : Residue) (cpu : Client)
    (packet : Packet) (siguientes rest : List Packet)
    (hop : packet.header.opcode = .OP_CPU_SEMAPHORE)
    (h : gestionSyscall config k r packet cpu siguientes = some (k', rest)) :
    ∃ packetSem, siguientes = packetSem :: rest
      ∧ ((asksWait r packetSem ∧ ∃ k₁,
          (k.leaveExec (syscallPid r packet)).semWait (syscallPcb r packet)
            (semaphoreIndex config r packetSem) = some k₁ ∧ k' = k₁.restoreCPU cpu)
        ∨ (¬ asksWait r packetSem ∧ ∃ k₁,
          (k.leaveExec (syscallPid r packet)).semSignal r (syscallPcb r packet)
            (semaphoreIndex config r packetSem) = some k₁ ∧ k' = k₁.restoreCPU cpu)) := by
  unfold gestionSyscall at h
  simp only [hop] at h
  cases siguientes with
  | nil => exact absurd h (by simp)
  | cons packetSem siguientes =>
      simp only at h
      split at h
      · exact absurd h (by simp)
      split at h
      · rename_i k₂ hsem
        rw [Option.some.injEq, Prod.mk.injEq] at h
        rcases h with ⟨hk, rfl⟩
        refine ⟨packetSem, rfl, ?_⟩
        by_cases hwait : packetSem.pointer (r.payload 1) 0 = 119
        · rw [if_pos hwait] at hsem
          exact Or.inl ⟨by simpa [asksWait] using hwait, k₂, hsem, hk.symm⟩
        · rw [if_neg hwait] at hsem
          exact Or.inr ⟨by simpa [asksWait] using hwait, k₂, hsem, hk.symm⟩
      · exact absurd h (by simp)

/-- A message about a shared variable asks for its value, which is sent, or gives it one. -/
theorem gestionSyscall_sharedVar (config : Config) (k k' : State) (r : Residue) (cpu : Client)
    (packet : Packet) (siguientes rest : List Packet)
    (hop : packet.header.opcode = .OP_CPU_SHARED_VAR)
    (h : gestionSyscall config k r packet cpu siguientes = some (k', rest)) :
    ∃ packetSharedVar value, k.sharedValues[sharedIndex config r packetSharedVar]? = some value
      ∧ ((siguientes = packetSharedVar :: rest ∧ packetSharedVar.pointer (r.payload 1) 0 = 118
          ∧ k' = ((k.leaveExec (syscallPid r packet)).send cpu.clientID
            (packed r (protocolHeader .KERNEL .OP_KE_SEND_SHAREDVALUE) [.h value])).restoreCPU cpu)
        ∨ ∃ packetValue, siguientes = packetSharedVar :: packetValue :: rest
          ∧ packetSharedVar.pointer (r.payload 1) 0 ≠ 118
          ∧ k' = State.restoreCPU { k.leaveExec (syscallPid r packet) with
            sharedValues := k.sharedValues.set (sharedIndex config r packetSharedVar)
              (unpacki16 (packetValue.pointer (r.payload 2)) 0) } cpu) := by
  unfold gestionSyscall at h
  simp only [hop] at h
  cases siguientes with
  | nil => exact absurd h (by simp only [reduceCtorEq, not_false_eq_true])
  | cons packetSharedVar siguientes =>
      simp only at h
      split at h
      · exact absurd h (by simp only [reduceCtorEq, not_false_eq_true])
      split at h
      · exact absurd h (by simp only [reduceCtorEq, not_false_eq_true])
      rename_i value hvalue
      refine ⟨packetSharedVar, value, hvalue, ?_⟩
      split at h
      · rename_i hletter
        rw [Option.some.injEq, Prod.mk.injEq] at h
        exact Or.inl ⟨by rw [h.2], hletter, h.1.symm⟩
      · rename_i hletter
        -- The value is in the packet after the name.
        cases siguientes with
        | nil => exact absurd h (by simp only [reduceCtorEq, not_false_eq_true])
        | cons packetValue siguientes =>
            rw [Option.some.injEq, Prod.mk.injEq] at h
            exact Or.inr ⟨packetValue, by rw [h.2], hletter, h.1.symm⟩

/-- A message of a CPU ends its process, is a wait or a signal, or is about a
    shared variable; in the last case, and for any other operation, the process is in
    no queue any more. -/
theorem gestionSyscall_cases (config : Config) (k k' : State) (r : Residue) (cpu : Client)
    (packet : Packet) (siguientes rest : List Packet)
    (h : gestionSyscall config k r packet cpu siguientes = some (k', rest)) :
    (packet.header.opcode = .OP_CPU_PROGRAM_END ∧ k' =
        ((k.leaveExec (syscallPid r packet)).endProgram r (syscallPcb r packet)
          exitSuccessful).restoreCPU cpu)
    ∨ (packet.header.opcode = .OP_CPU_SEMAPHORE ∧ ∃ packetSem, siguientes = packetSem :: rest
        ∧ ((asksWait r packetSem ∧ ∃ k₁,
            (k.leaveExec (syscallPid r packet)).semWait (syscallPcb r packet)
              (semaphoreIndex config r packetSem) = some k₁ ∧ k' = k₁.restoreCPU cpu)
          ∨ (¬ asksWait r packetSem ∧ ∃ k₁,
            (k.leaveExec (syscallPid r packet)).semSignal r (syscallPcb r packet)
              (semaphoreIndex config r packetSem) = some k₁ ∧ k' = k₁.restoreCPU cpu)))
    ∨ (packet.header.opcode = .OP_CPU_SHARED_VAR ∧ ∃ values w, k' =
        State.restoreCPU { k.leaveExec (syscallPid r packet) with
          sharedValues := values
          wire := w } cpu)
    ∨ (packet.header.opcode ≠ .OP_CPU_PROGRAM_END ∧ packet.header.opcode ≠ .OP_CPU_SEMAPHORE
        ∧ packet.header.opcode ≠ .OP_CPU_SHARED_VAR ∧ k' = k.leaveExec (syscallPid r packet)) := by
  cases hop : packet.header.opcode with
  | OP_CPU_PROGRAM_END =>
      rw [gestionSyscall_programEnd config k r cpu packet siguientes hop, Option.some.injEq,
        Prod.mk.injEq] at h
      exact Or.inl ⟨rfl, h.1.symm⟩
  | OP_CPU_SEMAPHORE =>
      exact Or.inr (Or.inl
        ⟨rfl, gestionSyscall_semaphore config k k' r cpu packet siguientes rest hop h⟩)
  | OP_CPU_SHARED_VAR =>
      refine Or.inr (Or.inr (Or.inl ⟨rfl, ?_⟩))
      rcases gestionSyscall_sharedVar config k k' r cpu packet siguientes rest hop h with
        ⟨packetSharedVar, value, _, ⟨_, _, heq⟩ | ⟨packetValue, _, _, heq⟩⟩
      · exact ⟨k.sharedValues, _, heq⟩
      · exact ⟨_, k.wire, heq⟩
  | _ =>
      unfold gestionSyscall at h
      simp only [hop, Option.some.injEq, Prod.mk.injEq] at h
      exact Or.inr (Or.inr (Or.inr ⟨by simp, by simp, by simp, h.1.symm⟩))

/-- A message changes neither the last number given nor the level. -/
theorem gestionSyscall_numbers (config : Config) (k k' : State) (r : Residue) (cpu : Client)
    (packet : Packet) (siguientes rest : List Packet)
    (h : gestionSyscall config k r packet cpu siguientes = some (k', rest)) :
    k'.generatorPid = k.generatorPid ∧ k'.multipgLevel = k.multipgLevel := by
  rcases gestionSyscall_cases config k k' r cpu packet siguientes rest h with
    ⟨-, rfl⟩ | ⟨-, packetSem, -, ⟨-, k₁, hsem, rfl⟩ | ⟨-, k₁, hsem, rfl⟩⟩
      | ⟨-, values, w, rfl⟩ | ⟨-, -, -, rfl⟩
  · rcases endProgram_eq (k.leaveExec (syscallPid r packet)) r (syscallPcb r packet)
      exitSuccessful with ⟨w, heq⟩
    rw [heq]
    exact ⟨rfl, rfl⟩
  · rcases semWait_cases _ _ _ _ hsem with ⟨_, _, -, -, ⟨-, rfl⟩ | ⟨-, rfl⟩⟩
    · exact ⟨rfl, rfl⟩
    · exact ⟨rfl, rfl⟩
  · rcases semSignal_cases _ _ _ _ _ hsem with ⟨_, _, _, _, -, -, -, rfl⟩
    exact ⟨rfl, rfl⟩
  · exact ⟨rfl, rfl⟩
  · exact ⟨rfl, rfl⟩

/-- A message that is followed by what it needs and by nothing else is handled. -/
theorem step_syscall (parser : Parser) (config : Config) (k k' : State) (r : Residue)
    (cpu : Client) (packet : Packet) (siguientes : List Packet)
    (h : k.step parser config (r, .syscall cpu packet siguientes) = some k') :
    k.expects r packet ∧ gestionSyscall config k r packet cpu siguientes = some (k', []) := by
  simp only [State.step] at h
  split at h
  · rename_i hexpects
    split at h
    · rename_i k₁ hsyscall
      rw [Option.some.injEq] at h
      rw [← h]
      exact ⟨hexpects, hsyscall⟩
    · exact absurd h.symm (Option.some_ne_none _)
  · exact absurd h.symm (Option.some_ne_none _)

/-- The same for a message the kernel expects. -/
theorem step_syscall_cases (parser : Parser) (config : Config) (k k' : State) (r : Residue)
    (cpu : Client) (packet : Packet) (siguientes : List Packet)
    (h : k.step parser config (r, .syscall cpu packet siguientes) = some k') :
    k.expects r packet ∧
      ((packet.header.opcode = .OP_CPU_PROGRAM_END ∧ k' =
          ((k.leaveExec (syscallPid r packet)).endProgram r (syscallPcb r packet)
            exitSuccessful).restoreCPU cpu)
      ∨ (packet.header.opcode = .OP_CPU_SEMAPHORE ∧ ∃ packetSem, siguientes = [packetSem]
          ∧ ((asksWait r packetSem ∧ ∃ k₁,
              (k.leaveExec (syscallPid r packet)).semWait (syscallPcb r packet)
                (semaphoreIndex config r packetSem) = some k₁ ∧ k' = k₁.restoreCPU cpu)
            ∨ (¬ asksWait r packetSem ∧ ∃ k₁,
              (k.leaveExec (syscallPid r packet)).semSignal r (syscallPcb r packet)
                (semaphoreIndex config r packetSem) = some k₁ ∧ k' = k₁.restoreCPU cpu)))
      ∨ (packet.header.opcode = .OP_CPU_SHARED_VAR ∧ ∃ values w, k' =
          State.restoreCPU { k.leaveExec (syscallPid r packet) with
            sharedValues := values
            wire := w } cpu)) := by
  rcases step_syscall parser config k k' r cpu packet siguientes h with ⟨hexpects, hsyscall⟩
  refine ⟨hexpects, ?_⟩
  -- The codes other than these three are not syscalls, which `expects` excludes.
  rcases gestionSyscall_cases config k k' r cpu packet siguientes [] hsyscall with
    hend | hsem | hshared | ⟨hend, hsem, hshared, -⟩
  · exact Or.inl hend
  · exact Or.inr (Or.inl hsem)
  · exact Or.inr (Or.inr hshared)
  · simp [State.expects, hend, hsem, hshared] at hexpects

/-- A console that connects is listed, with no programs. -/
theorem step_connectConsole (parser : Parser) (config : Config) (k k' : State) (r : Residue)
    (fd : Int) (h : k.step parser config (r, .connectConsole fd) = some k') :
    k' = { k with
      consolasConectadas :=
        k.consolasConectadas ++ [{ clientID := fd, process := .CONSOLE, pids := [] }] } := by
  rw [State.step, Option.some.injEq] at h
  exact h.symm

/-- A CPU that connects is listed, and told the size of the stack. -/
theorem step_connectCpu (parser : Parser) (config : Config) (k k' : State) (r : Residue)
    (fd : Int) (h : k.step parser config (r, .connectCpu fd) = some k') :
    k' = State.send { k with
      cpuConectadas := k.cpuConectadas ++ [{ clientID := fd, process := .CPU, pids := [] }] } fd
        (stackSizePacket config r) := by
  rw [State.step, Option.some.injEq] at h
  exact h.symm

/-- A console that leaves takes its programs with it. -/
theorem step_destroyConsole (parser : Parser) (config : Config) (k k' : State) (r : Residue)
    (client : Client) (h : k.step parser config (r, .destroyConsole client) = some k') :
    k' = destroyConsole k r client := by
  rw [State.step, Option.some.injEq] at h
  exact h.symm

/-- `kill` ends with a process it has found. -/
theorem step_kill (parser : Parser) (config : Config) (k k' : State) (r : Residue) (pid : Int)
    (h : k.step parser config (r, .kill pid) = some k') :
    k.killable pid ∧ k' = terminalKill k pid := by
  simp only [State.step] at h
  split at h
  · rename_i hkillable
    exact ⟨hkillable, (Option.some.inj h).symm⟩
  · exact absurd h (by simp)

/-- Whatever a client sends, `gestion_syscall` is called for it. -/
theorem serve_syscall (parser : Parser) (config : Config) (k k' : State) (r : Residue)
    (cpu : Client) (packet : Packet) (siguientes : List Packet)
    (h : k.serve parser config (r, .syscall cpu packet siguientes) = some k') :
    ∃ rest, gestionSyscall config k r packet cpu siguientes = some (k', rest) := by
  simp only [State.serve, Option.map_eq_some_iff] at h
  rcases h with ⟨⟨v, rest⟩, hsyscall, rfl⟩
  exact ⟨rest, hsyscall⟩

end Kernel

end Esther
