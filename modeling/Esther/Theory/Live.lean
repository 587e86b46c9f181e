import Esther.Theory.Exit
import Esther.Theory.Semaphore

/-!
# The Processes in the System

A process is in the system while it is ready, running or blocked, and the level of
multiprogramming bounds how many are.

A scheduling round compares the lengths of the three queues with the level and knows
nothing else about the processes in them. So the bound is kept as long as nobody enters
the queues but by a round, and it is worth something only if nobody leaves them who goes
on running.

Both fail with the messages of the CPUs. A message about a shared variable takes its
process out of `pcb_exec` for good while the CPU goes on with it; its place is given away,
and the next message about a semaphore puts the process in the queues again. A signal
brings back a process that was killed while it waited, and may lose the one it wakes, whose
block it has freed.

`Moves` says once what a step without these can do to the three queues.

## Main definitions

* `State.system`: The processes ready, running or blocked.
* `SlotKeeps`: The steps by which nobody is lost or brought back.
* `admission`, `departures`: Who enters in a step, and who is ended.
* `Moves`: What a step does to the processes in the system.
* `History`, `serveHistory`: Who has been admitted and who has ended.
* `Counted`: The bound, with everybody counted who should be.

## Theorems

* `moves_serve`: A step by which nobody is lost or brought back.
* `counted_throughout`: The bound, in all states of a run of such steps.
* `shared_variable_frees_slot`: A run beyond the bound.
-/

namespace Esther

namespace Kernel

open Cells Serial Transition

/-- The processes in the system. -/
def State.system (k : State) : List Pcb := k.pcbReady ++ k.pcbExec ++ k.pcbBlock

/-- The process a signal wakes is its caller or blocked, and its block, which is freed, reads
    the same from then on. -/
def SignalReturns (k : State) (r : Residue) (pcb head : Pcb) : Prop :=
  k.blockedWith pcb head.idProcess ∧ (r.freed head).idProcess = head.idProcess

/-- The steps that take nobody out of the system without ending it, and bring nobody back:
    semaphores are used by processes that are running, signals wake somebody who is
    waiting, and no running process sends anything else. -/
def SlotKeeps (config : Config) (k : State) (e : Residue × Event) : Prop :=
  match e.2 with
  | .syscall _ packet siguientes =>
      if packet.header.opcode = .OP_CPU_PROGRAM_END then True
      else if packet.header.opcode = .OP_CPU_SEMAPHORE then
        0 < occurrences (syscallPid e.1 packet) k.pcbExec
          ∧ ∀ packetSem ∈ siguientes.head?, asksWait e.1 packetSem
            ∨ ∀ queue ∈ k.solicitudesSem[semaphoreIndex config e.1 packetSem]?,
              SignalReturns k e.1 (syscallPcb e.1 packet)
                (oldestRequest queue (syscallPcb e.1 packet))
      else occurrences (syscallPid e.1 packet) k.pcbExec = 0
  | _ => True

instance (k : State) (r : Residue) (pcb head : Pcb) : Decidable (SignalReturns k r pcb head) :=
  inferInstanceAs (Decidable (_ ∧ _))

instance decidableSlotKeeps (config : Config) (k : State) :
    (e : Residue × Event) → Decidable (SlotKeeps config k e)
  | (r, .syscall _ packet siguientes) => inferInstanceAs (Decidable (
      if packet.header.opcode = .OP_CPU_PROGRAM_END then True
      else if packet.header.opcode = .OP_CPU_SEMAPHORE then
        0 < occurrences (syscallPid r packet) k.pcbExec
          ∧ ∀ packetSem ∈ siguientes.head?, asksWait r packetSem
            ∨ ∀ queue ∈ k.solicitudesSem[semaphoreIndex config r packetSem]?,
              SignalReturns k r (syscallPcb r packet)
                (oldestRequest queue (syscallPcb r packet))
      else occurrences (syscallPid r packet) k.pcbExec = 0))
  | (_, .connectConsole _) => .isTrue trivial
  | (_, .connectCpu _) => .isTrue trivial
  | (_, .newProgram _ _) => .isTrue trivial
  | (_, .planificacion _) => .isTrue trivial
  | (_, .destroyConsole _) => .isTrue trivial
  | (_, .kill _) => .isTrue trivial

/-- The process a step admits. -/
def admission (k : State) (e : Residue × Event) : Option Int :=
  match e.2 with
  | .planificacion res =>
      if k.hasRoom ∧ res ≠ 0 then k.pcbNew.head?.map fun pcb => pcb.idProcess else none
  | _ => none

/-- The processes a step ends, by `end_program` or by `kill`. -/
def departures (k : State) (e : Residue × Event) : List Int :=
  match e.2 with
  | .kill pid => [pid]
  | _ => endings k e

/-- What a step does to the processes in the system: at most one enters, and who was there
    stays, but for those that are ended. -/
structure Moves (k u : State) (e : Residue × Event) : Prop where
  length : u.system.length ≤ k.system.length + (admission k e).toList.length
  kept : ∀ pid, 0 < occurrences pid k.system → pid ∉ departures k e →
    0 < occurrences pid u.system
  admitted : ∀ pid ∈ admission k e, 0 < occurrences pid u.system
  origin : ∀ pid, 0 < occurrences pid u.system →
    0 < occurrences pid k.system ∨ admission k e = some pid
  departed : ∀ pid ∈ endings k e, occurrences pid u.system = 0

/-- Who has been admitted, and who has ended. -/
structure History where
  admitted : List Int
  ended : List Int
deriving DecidableEq, Repr

/-- The kernel and its history, together. -/
def serveHistory (parser : Parser) (config : Config) (s : State × History)
    (e : Residue × Event) : Option (State × History) :=
  (s.1.serve parser config e).map fun u =>
    (u, { admitted := s.2.admitted ++ (admission s.1 e).toList
          ended := s.2.ended ++ departures s.1 e })

/-- No more processes are in the system than the level allows, and those that have been
    admitted and have not ended are among them. -/
structure Counted (s : State × History) : Prop where
  bound : (s.1.system.length : Int) ≤ s.1.multipgLevel
  counted : ∀ pid ∈ s.2.admitted, pid ∉ s.2.ended → 0 < occurrences pid s.1.system

section Queues

theorem occurrences_system (k : State) (pid : Int) : occurrences pid k.system
    = occurrences pid k.pcbReady + occurrences pid k.pcbExec + occurrences pid k.pcbBlock := by
  simp only [State.system, occurrences_append]

theorem length_system (k : State) :
    k.system.length = k.pcbReady.length + k.pcbExec.length + k.pcbBlock.length := by
  simp only [State.system, List.length_append]

theorem hasRoom_iff (k : State) : k.hasRoom ↔ (k.system.length : Int) < k.multipgLevel := by
  rw [State.hasRoom, decide_eq_true_iff, length_system]
  push_cast
  rfl

/-- Taking the blocks of a process out of a queue. -/
theorem length_removePid (pid : Int) (list : List Pcb) :
    (removePid pid list).length + occurrences pid list = list.length := by
  induction list with
  | nil => rfl
  | cons pcb list ih =>
      simp only [removePid, occurrences_cons, List.length_cons, List.filter_cons] at ih ⊢
      by_cases hpid : pid = pcb.idProcess
      · simp only [hpid, beq_self_eq_true, Bool.not_true, Bool.false_eq_true, if_false, if_true]
          at ih ⊢
        omega
      · have hne : ¬ pcb.idProcess = pid := fun hc => hpid hc.symm
        simp only [beq_eq_false_iff_ne.mpr hpid, Bool.not_false, if_true, if_neg hne,
          List.length_cons]
        omega

theorem length_without_le (pids : List Int) (list : List Pcb) :
    (without pids list).length ≤ list.length := List.length_filter_le _ _

/-- A step that leaves the three queues alone. -/
theorem moves_of_system_eq (k u : State) (e : Residue × Event) (hsystem : u.system = k.system)
    (hadmission : admission k e = none) (hendings : endings k e = []) : Moves k u e := by
  refine ⟨by rw [hsystem]; omega, fun pid hpid _ => by rw [hsystem]; exact hpid, ?_, ?_, ?_⟩
  · rw [hadmission]
    simp
  · intro pid hpid
    rw [hsystem] at hpid
    exact Or.inl hpid
  · rw [hendings]
    simp

/-- The first half of a round admits a process or leaves the system alone. -/
theorem admitir_outcome (config : Config) (k u : State) (r : Residue) (res : Int)
    (h : admitir config k r res = some u) :
    (admission k (r, .planificacion res) = none ∧ u.system = k.system)
      ∨ ∃ pcb, admission k (r, .planificacion res) = some pcb.idProcess
        ∧ u.pcbReady = k.pcbReady ++ [pcb] ∧ u.pcbExec = k.pcbExec ∧ u.pcbBlock = k.pcbBlock := by
  by_cases hidle : k.pcbNew = []
      ∨ ¬ (k.pcbReady.length + k.pcbExec.length + k.pcbBlock.length : Int) < k.multipgLevel
  · refine Or.inl ⟨?_, by rw [admitir_idle config k u r res hidle h]⟩
    simp only [admission]
    rcases hidle with hnil | hlevel
    · simp [hnil]
    · simp [State.hasRoom, hlevel]
  · rw [not_or, not_not] at hidle
    have hroom : k.hasRoom = true := by simpa [State.hasRoom] using hidle.2
    rcases admitir_cases config k u r res h with rfl
      | ⟨pcb, pcbNew, code, _, hnew, -, -, ⟨hres, w', rfl⟩ | ⟨hres, w', rfl⟩⟩
    · -- With a process waiting and room for it the queue cannot stay as it is.
      rcases List.exists_cons_of_ne_nil hidle.1 with ⟨pcb, pcbNew, hnew⟩
      have hpops := admitir_pops config u u r res pcb pcbNew hnew hidle.2 h
      exact absurd (hnew.symm.trans hpops) (List.cons_ne_self _ _)
    · refine Or.inr ⟨admitted config pcb code, ?_, rfl, rfl, rfl⟩
      simp [admission, hroom, hres, hnew, admitted]
    · exact Or.inl ⟨by simp [admission, hres], rfl⟩

/-- A round of the scheduler. -/
theorem moves_planificacion (config : Config) (k u : State) (r : Residue) (res : Int)
    (h : planificacion config k r res = some u) : Moves k u (r, .planificacion res) := by
  rcases planificacion_cases config k u r res h with ⟨k₁, hadm, n, w, -, rfl⟩
  -- The second half moves processes from one queue to another.
  have hmoved : ∀ pid, occurrences pid (State.system { k₁ with
        pcbReady := k₁.pcbReady.drop n
        pcbExec := k₁.pcbExec ++ k₁.pcbReady.take n
        cpuConectadas := k₁.cpuConectadas.drop n
        cpuExecuting := k₁.cpuExecuting ++ k₁.cpuConectadas.take n
        wire := w }) = occurrences pid k₁.system := by
    intro pid
    have hsplit := occurrences_take_drop pid n k₁.pcbReady
    simp only [occurrences_system, occurrences_append]
    omega
  have hlength : (State.system { k₁ with
        pcbReady := k₁.pcbReady.drop n
        pcbExec := k₁.pcbExec ++ k₁.pcbReady.take n
        cpuConectadas := k₁.cpuConectadas.drop n
        cpuExecuting := k₁.cpuExecuting ++ k₁.cpuConectadas.take n
        wire := w }).length = k₁.system.length := by
    simp only [length_system, List.length_append, List.length_take, List.length_drop]
    omega
  have hentered : (∀ pid, occurrences pid k₁.system = occurrences pid k.system
        + if admission k (r, .planificacion res) = some pid then 1 else 0)
      ∧ k₁.system.length = k.system.length
        + (admission k (r, .planificacion res)).toList.length := by
    rcases admitir_outcome config k k₁ r res hadm with ⟨hnone, hsystem⟩
      | ⟨pcb, hsome, hready, hexec, hblock⟩
    · rw [hnone, hsystem]
      simp
    · rw [hsome]
      refine ⟨fun pid => ?_, ?_⟩
      · simp only [occurrences_system, hready, hexec, hblock, occurrences_append, occurrences_cons,
          occurrences_nil, Option.some.injEq]
        omega
      · simp only [length_system, hready, hexec, hblock, List.length_append, List.length_singleton,
          Option.toList_some]
        omega
  refine ⟨?_, fun pid hpid _ => ?_, fun pid hpid => ?_, fun pid hpid => ?_, ?_⟩
  · rw [hlength, hentered.2]
  · rw [hmoved, hentered.1]
    omega
  · rw [Option.mem_def] at hpid
    rw [hmoved, hentered.1, if_pos hpid]
    omega
  · rw [hmoved, hentered.1] at hpid
    by_cases hnew : admission k (r, .planificacion res) = some pid
    · exact Or.inr hnew
    · rw [if_neg hnew] at hpid
      exact Or.inl hpid
  · exact fun pid hpid => absurd hpid List.not_mem_nil

/-- Programs that end leave the system. -/
theorem moves_of_without (k u : State) (e : Residue × Event) (hadmission : admission k e = none)
    (hdepartures : departures k e = endings k e)
    (hready : u.pcbReady = without (endings k e) k.pcbReady)
    (hexec : u.pcbExec = without (endings k e) k.pcbExec)
    (hblock : u.pcbBlock = without (endings k e) k.pcbBlock) : Moves k u e := by
  -- All the queues lose the same processes, so the system does.
  have hcount : ∀ pid, occurrences pid u.system
      = if pid ∈ endings k e then 0 else occurrences pid k.system := by
    intro pid
    simp only [occurrences_system, hready, hexec, hblock, occurrences_without]
    by_cases hpid : pid ∈ endings k e
    · simp [hpid]
    · simp [hpid]
  refine ⟨?_, fun pid hpid hout => ?_, ?_, fun pid hpid => ?_, fun pid hpid => ?_⟩
  · have h1 := length_without_le (endings k e) k.pcbReady
    have h2 := length_without_le (endings k e) k.pcbExec
    have h3 := length_without_le (endings k e) k.pcbBlock
    rw [length_system, length_system, hready, hexec, hblock]
    omega
  · rw [hcount, if_neg (hdepartures ▸ hout)]
    exact hpid
  · rw [hadmission]
    simp
  · rw [hcount] at hpid
    split at hpid
    · omega
    · exact Or.inl hpid
  · rw [hcount, if_pos hpid]

theorem moves_terminalKill (k : State) (r : Residue) (pid : Int) :
    Moves k (terminalKill k pid) (r, .kill pid) := by
  have hready := killIn_sublist pid k.pcbReady
  have hblock := killIn_sublist pid k.pcbBlock
  have hsub : (terminalKill k pid).system.Sublist k.system :=
    (hready.append (List.Sublist.refl k.pcbExec)).append hblock
  refine ⟨?_, fun other hother hout => ?_, ?_, fun other hother => ?_, ?_⟩
  · have hle := hsub.length_le
    omega
  · have hne : other ≠ pid := fun hc => hout (hc ▸ List.mem_singleton_self _)
    -- The blocks that are moved are of the process that is killed.
    have hkept : ∀ queue : List Pcb,
        occurrences other (killIn pid queue).1 = occurrences other queue := by
      intro queue
      have hsum := occurrences_killIn pid other queue
      have hnone : occurrences other (killIn pid queue).2 = 0 := by
        rw [occurrences_eq_zero]
        intro pcb hpcb hc
        exact hne (hc.symm.trans (killIn_moved pid queue pcb hpcb).1)
      omega
    rw [occurrences_system] at hother ⊢
    simp only [terminalKill, hkept]
    exact hother
  · simp [admission]
  · exact Or.inl (lt_of_lt_of_le hother (hsub.countP_le))
  · simp [endings]

/-- A wait puts its caller in `pcb_ready` or in `pcb_block`, and moves nobody else. -/
theorem system_semWait (k k₁ : State) (pcb : Pcb) (i : Nat) (h : k.semWait pcb i = some k₁) :
    k₁.system.Perm (pcb :: k.system) := by
  rcases semWait_cases k k₁ pcb i h with ⟨value, queue, -, -, ⟨-, rfl⟩ | ⟨-, rfl⟩⟩
  · simp only [State.system, List.append_assoc, List.singleton_append]
    exact List.perm_middle
  · simp only [State.system, ← List.append_assoc]
    exact List.perm_append_singleton pcb _

/-- A wait of a running process. -/
theorem moves_semWait (k k₁ : State) (r : Residue) (cpu : Client) (packet packetSem : Packet)
    (siguientes : List Packet) (i : Nat) (hop : packet.header.opcode = .OP_CPU_SEMAPHORE)
    (hexec : 0 < occurrences (syscallPid r packet) k.pcbExec)
    (h : (k.leaveExec (syscallPid r packet)).semWait (syscallPcb r packet) i = some k₁) :
    Moves k (k₁.restoreCPU cpu) (r, .syscall cpu packet (packetSem :: siguientes)) := by
  have hpid : (syscallPcb r packet).idProcess = syscallPid r packet := rfl
  have hperm := system_semWait _ _ _ _ h
  have hremoved := length_removePid (syscallPid r packet) k.pcbExec
  have hlength : (k₁.restoreCPU cpu).system.length + occurrences (syscallPid r packet) k.pcbExec
      = k.system.length + 1 := by
    have hlen : (k₁.restoreCPU cpu).system.length
        = (k.leaveExec (syscallPid r packet)).system.length + 1 := hperm.length_eq
    rw [hlen, length_system, length_system]
    simp only [State.leaveExec]
    omega
  -- The caller leaves `pcb_exec` and comes back once, wherever the wait puts it.
  have hcount : ∀ pid, occurrences pid (k₁.restoreCPU cpu).system
      = occurrences pid k.pcbReady + occurrences pid k.pcbBlock
        + (if syscallPid r packet = pid then 1 else occurrences pid k.pcbExec) := by
    intro pid
    have hsame : occurrences pid (k₁.restoreCPU cpu).system
        = occurrences pid (syscallPcb r packet :: (k.leaveExec (syscallPid r packet)).system) :=
      hperm.countP_eq _
    rw [hsame, occurrences_cons, occurrences_system]
    simp only [State.leaveExec, occurrences_removePid, hpid]
    by_cases hself : syscallPid r packet = pid
    · simp only [if_pos hself]
      omega
    · simp only [if_neg hself]
      omega
  refine ⟨?_, fun pid hlive _ => ?_, by simp [admission], fun pid hlive => ?_, ?_⟩
  · omega
  · rw [occurrences_system] at hlive
    rw [hcount]
    split
    · omega
    · omega
  · rw [hcount] at hlive
    rw [occurrences_system]
    split at hlive
    · rename_i hself
      rw [← hself]
      omega
    · omega
  · simp [endings, hop]

/-- A signal of a running process. -/
theorem moves_semSignal (k k₁ : State) (r : Residue) (cpu : Client) (packet packetSem : Packet)
    (siguientes : List Packet) (i : Nat) (queue : List Pcb)
    (hop : packet.header.opcode = .OP_CPU_SEMAPHORE)
    (hexec : 0 < occurrences (syscallPid r packet) k.pcbExec)
    (hqueue : k.solicitudesSem[i]? = some queue)
    (hreturns : SignalReturns k r (syscallPcb r packet)
      (oldestRequest queue (syscallPcb r packet)))
    (h : (k.leaveExec (syscallPid r packet)).semSignal r (syscallPcb r packet) i = some k₁) :
    Moves k (k₁.restoreCPU cpu) (r, .syscall cpu packet (packetSem :: siguientes)) := by
  have hpid : (syscallPcb r packet).idProcess = syscallPid r packet := rfl
  rcases semSignal_cases _ _ _ _ _ h with ⟨value, queue', head, rest, -, hqueue', hsplit, rfl⟩
  obtain rfl : queue = queue' := Option.some.inj (hqueue.symm.trans hqueue')
  rw [oldestRequest_eq queue (syscallPcb r packet) head rest hsplit] at hreturns
  have hfound := (any_pcbEquals_block k (syscallPcb r packet) head).trans hreturns.1
  -- At least one block is freed in `pcb_block`, and it is ready again.
  have hgone := length_removePid head.idProcess (k.pcbBlock ++ [syscallPcb r packet])
  have hpos : 0 < occurrences head.idProcess (k.pcbBlock ++ [syscallPcb r packet]) := by
    rw [occurrences_pos]
    exact hreturns.1
  have hremoved := length_removePid (syscallPid r packet) k.pcbExec
  have hcount : ∀ pid, occurrences pid (State.restoreCPU { k.leaveExec (syscallPid r packet) with
          semAnsisop := (k.leaveExec (syscallPid r packet)).semAnsisop.set i (value + 1)
          pcbReady := k.pcbReady ++ [r.freed head]
          pcbBlock := removePid head.idProcess (k.pcbBlock ++ [syscallPcb r packet])
          solicitudesSem := ((k.leaveExec (syscallPid r packet)).solicitudesSem.set i rest).map
            fun aux => aux.map
              (requestLeft r head (readBehind r queue head) (k.pcbBlock ++ [syscallPcb r packet])) }
            cpu).system
      = occurrences pid k.pcbReady + (if head.idProcess = pid then 1
          else occurrences pid k.pcbBlock + if syscallPid r packet = pid then 1 else 0)
        + (if syscallPid r packet = pid then 0 else occurrences pid k.pcbExec) := by
    intro pid
    simp only [occurrences_system, State.restoreCPU, State.leaveExec, occurrences_append,
      occurrences_cons, occurrences_nil, occurrences_removePid, hpid, hreturns.2]
    by_cases hself : head.idProcess = pid
    · simp only [if_pos hself]
      omega
    · simp only [if_neg hself]
      omega
  rw [show (((k.leaveExec (syscallPid r packet)).pcbBlock ++ [syscallPcb r packet]).any
    fun pcbBlock => pcbEquals head pcbBlock) = true from hfound, if_pos rfl,
    removeReady_of_same head _ _ (readBehind_idProcess r queue head hreturns.2)]
  -- Who is made ready was blocked before, or is the caller itself.
  have hready : ∀ pid : Int, pid = head.idProcess →
      0 < occurrences pid k.pcbBlock ∨ pid = syscallPid r packet := by
    intro pid hself
    rw [hself]
    rw [occurrences_append, occurrences_cons, occurrences_nil, hpid] at hpos
    by_cases hcaller : syscallPid r packet = head.idProcess
    · exact Or.inr hcaller.symm
    · rw [if_neg hcaller] at hpos
      exact Or.inl (by omega)
  refine ⟨?_, fun pid hlive _ => ?_, by simp [admission], fun pid hlive => ?_, ?_⟩
  · simp only [length_system, State.restoreCPU, State.leaveExec, List.length_append,
      List.length_singleton] at hgone hremoved ⊢
    omega
  · rw [occurrences_system] at hlive
    have hafter := hcount pid
    by_cases hself : head.idProcess = pid
    · rw [if_pos hself] at hafter
      exact hafter ▸ (by omega)
    · rw [if_neg hself] at hafter
      by_cases hcaller : syscallPid r packet = pid
      · rw [if_pos hcaller, if_pos hcaller] at hafter
        exact hafter ▸ (by omega)
      · rw [if_neg hcaller, if_neg hcaller] at hafter
        exact hafter ▸ (by omega)
  · have hafter := hcount pid
    have hlive' := hafter ▸ hlive
    left
    rw [occurrences_system]
    by_cases hcaller : syscallPid r packet = pid
    · rw [hcaller] at hexec
      omega
    · by_cases hself : head.idProcess = pid
      · rcases hready pid hself.symm with hblocked | hc
        · omega
        · exact absurd hc.symm hcaller
      · rw [if_neg hself, if_neg hcaller, if_neg hcaller] at hlive'
        omega
  · simp [endings, hop]

/-- A message of a CPU by which nobody is lost or brought back. -/
theorem moves_gestionSyscall (config : Config) (k u : State) (r : Residue) (cpu : Client)
    (packet : Packet) (siguientes rest : List Packet)
    (hok : SlotKeeps config k (r, .syscall cpu packet siguientes))
    (h : gestionSyscall config k r packet cpu siguientes = some (u, rest)) :
    Moves k u (r, .syscall cpu packet siguientes) := by
  -- A message that only takes its process out of `pcb_exec` takes nobody out.
  have hquiet : ∀ v : State, v.pcbReady = k.pcbReady → v.pcbBlock = k.pcbBlock →
      v.pcbExec = removePid (syscallPid r packet) k.pcbExec →
      occurrences (syscallPid r packet) k.pcbExec = 0 →
      packet.header.opcode ≠ .OP_CPU_PROGRAM_END →
      Moves k v (r, .syscall cpu packet siguientes) := by
    intro v hready hblock hexec hnone hop
    refine moves_of_system_eq k v _ ?_ rfl (by simp [endings, hop])
    simp only [State.system, hready, hblock, hexec, (removePid_eq_self_iff _ _).mpr hnone]
  rcases gestionSyscall_cases config k u r cpu packet siguientes rest h with
    ⟨hop, rfl⟩ | ⟨hop, packetSem, rfl, hsem⟩ | ⟨hop, values, w, rfl⟩ | ⟨hend, hop, hshared, rfl⟩
  · rcases endProgram_eq (k.leaveExec (syscallPid r packet)) r (syscallPcb r packet)
      exitSuccessful with ⟨w, heq⟩
    rw [heq]
    refine moves_of_without k _ _ rfl rfl ?_ ?_ ?_
    · simp only [endings, if_pos hop, without_cons, without_nil]
      rfl
    · simp only [endings, if_pos hop, without_cons, without_nil]
      exact List.filter_filter.trans (List.filter_congr fun pcb _ => Bool.and_self _)
    · simp only [endings, if_pos hop, without_cons, without_nil]
      rfl
  · have hsem' : packet.header.opcode ≠ .OP_CPU_PROGRAM_END := by simp [hop]
    simp only [SlotKeeps, if_neg hsem', if_pos hop] at hok
    rcases hsem with ⟨hwait, k₁, hsem, rfl⟩ | ⟨hwait, k₁, hsem, rfl⟩
    · exact moves_semWait k k₁ r cpu packet packetSem rest _ hop hok.1 hsem
    · rcases semSignal_cases _ _ _ _ _ hsem with ⟨_, queue, _, _, -, hqueue, -, -⟩
      exact moves_semSignal k k₁ r cpu packet packetSem rest _ queue hop hok.1 hqueue
        ((hok.2 packetSem rfl).resolve_left hwait queue hqueue) hsem
  · have hend : packet.header.opcode ≠ .OP_CPU_PROGRAM_END := by simp [hop]
    have hsem : packet.header.opcode ≠ .OP_CPU_SEMAPHORE := by simp [hop]
    simp only [SlotKeeps, if_neg hend, if_neg hsem] at hok
    exact hquiet _ rfl rfl rfl hok hend
  · simp only [SlotKeeps, if_neg hend, if_neg hop] at hok
    exact hquiet _ rfl rfl rfl hok hend

/-- A step by which nobody is lost or brought back. -/
theorem moves_serve (parser : Parser) (config : Config) (k u : State) (e : Residue × Event)
    (hok : SlotKeeps config k e) (h : k.serve parser config e = some u) : Moves k u e := by
  rcases e with ⟨r, event⟩
  cases event with
  | connectConsole fd =>
      obtain rfl := step_connectConsole parser config k u r fd h
      exact moves_of_system_eq k _ _ rfl rfl rfl
  | connectCpu fd =>
      obtain rfl := step_connectCpu parser config k u r fd h
      exact moves_of_system_eq k _ _ rfl rfl rfl
  | newProgram console program =>
      rcases gestionDatosNewPcb_cases parser config k u r program console h with
        ⟨_, _, _, -, -, -, rfl⟩
      exact moves_of_system_eq k _ _ rfl rfl rfl
  | planificacion res => exact moves_planificacion config k u r res h
  | destroyConsole client =>
      obtain rfl := step_destroyConsole parser config k u r client h
      rcases destroyConsole_eq k r client with ⟨_, _, _, _, heq, -⟩
      rw [heq]
      exact moves_of_without k _ _ rfl rfl rfl rfl rfl
  | kill pid =>
      rcases step_kill parser config k u r pid h with ⟨-, rfl⟩
      exact moves_terminalKill k r pid
  | syscall cpu packet siguientes =>
      rcases serve_syscall parser config k u r cpu packet siguientes h with ⟨rest, hsyscall⟩
      exact moves_gestionSyscall config k u r cpu packet siguientes rest hok hsyscall

/-- The level is changed by nobody but the operator. -/
theorem multipgLevel_serve (parser : Parser) (config : Config) (k u : State)
    (e : Residue × Event) (h : k.serve parser config e = some u) :
    u.multipgLevel = k.multipgLevel := by
  rcases e with ⟨r, event⟩
  cases event with
  | connectConsole fd =>
      rw [step_connectConsole parser config k u r fd h]
  | connectCpu fd =>
      rw [step_connectCpu parser config k u r fd h]
      rfl
  | newProgram console program =>
      rcases gestionDatosNewPcb_cases parser config k u r program console h with
        ⟨_, _, _, -, -, -, rfl⟩
      rfl
  | planificacion res =>
      rcases planificacion_cases config k u r res h with ⟨k₁, hadm, n, w, -, rfl⟩
      rcases admitir_cases config k k₁ r res hadm with rfl
        | ⟨_, _, _, _, -, -, -, ⟨-, w', rfl⟩ | ⟨-, w', rfl⟩⟩
      · rfl
      · rfl
      · rfl
  | destroyConsole client =>
      rcases destroyConsole_eq k r client with ⟨_, _, _, _, heq, -⟩
      rw [step_destroyConsole parser config k u r client h, heq]
  | kill pid =>
      rcases step_kill parser config k u r pid h with ⟨-, rfl⟩
      rfl
  | syscall cpu packet siguientes =>
      rcases serve_syscall parser config k u r cpu packet siguientes h with ⟨rest, hsyscall⟩
      exact (gestionSyscall_numbers config k u r cpu packet siguientes rest hsyscall).2

end Queues

/-- The bound is kept by the steps by which nobody is lost or brought back. -/
theorem counted_step (parser : Parser) (config : Config) (s t : State × History)
    (e : Residue × Event) (hs : Counted s) (hok : SlotKeeps config s.1 e)
    (h : serveHistory parser config s e = some t) : Counted t := by
  rcases s with ⟨k, history⟩
  unfold serveHistory at h
  rw [Option.map_eq_some_iff] at h
  rcases h with ⟨u, hserve, rfl⟩
  have hmoves := moves_serve parser config k u e hok hserve
  constructor
  · rw [multipgLevel_serve parser config k u e hserve]
    have hlength := hmoves.length
    have hbound := hs.bound
    cases hadmission : admission k e with
    | none =>
        rw [hadmission] at hlength
        simp only [Option.toList_none, List.length_nil] at hlength
        simp only at hbound ⊢
        omega
    | some pid =>
        -- There was room for the process that is admitted.
        have hroom : k.hasRoom := by
          unfold admission at hadmission
          split at hadmission
          · split at hadmission
            · rename_i hroom
              exact hroom.1
            · exact absurd hadmission (by simp)
          · exact absurd hadmission (by simp)
        rw [hasRoom_iff] at hroom
        rw [hadmission] at hlength
        simp only [Option.toList_some, List.length_singleton] at hlength
        simp only
        omega
  · intro pid hpid hended
    simp only [List.mem_append, not_or] at hpid hended
    rcases hpid with hbefore | hnow
    · exact hmoves.kept pid (hs.counted pid hbefore hended.1) hended.2
    · exact hmoves.admitted pid (Option.mem_toList.mp hnow)

/-- In a run from start-up with a level that is not negative, no more processes are ready,
    running or blocked than the level allows, and every process that has been admitted and
    has not ended is among them, in all the states the run goes through, if by none of its
    steps a process is lost or brought back. -/
theorem counted_throughout (parser : Parser) (config : Config) (multipgLevel memfd : Int)
    (semInit : List Int) (shared : Nat) (hlevel : 0 ≤ multipgLevel) (es : List (Residue × Event))
    (hok : Along (serveHistory parser config) (fun s e => SlotKeeps config s.1 e)
      (State.init multipgLevel memfd semInit shared, { admitted := [], ended := [] }) es) :
    Throughout (serveHistory parser config) Counted
      (State.init multipgLevel memfd semInit shared, { admitted := [], ended := [] }) es := by
  refine throughout_invariant_along (serveHistory parser config)
    (fun s e => SlotKeeps config s.1 e) Counted
    (fun s e u hs hok h => counted_step parser config s u e hs hok h) _ es ?_ hok
  exact ⟨hlevel, fun pid hpid => absurd hpid List.not_mem_nil⟩

set_option maxRecDepth 2000

theorem sampleWait_slots :
    Along (serveHistory sampleParser sampleConfig) (fun s e => SlotKeeps sampleConfig s.1 e)
      (State.init 1 4 [2] 1, { admitted := [], ended := [] }) sampleWait := by
  decide

theorem sampleWait_counted :
    Throughout (serveHistory sampleParser sampleConfig) Counted
      (State.init 1 4 [2] 1, { admitted := [], ended := [] }) sampleWait :=
  counted_throughout sampleParser sampleConfig 1 4 [2] 1 (by decide) sampleWait sampleWait_slots

/-- The program of `sampleLoss`, which is in no queue while it runs, goes on to wait for a
    semaphore, and another one has been admitted in its place. -/
def sampleOverfull : List (Residue × Event) :=
  sampleLoss ++
    [(sampleResidue, .newProgram 5
      { header := protocolHeader .CONSOLE .OP_NEW_PROGRAM, payload := [97, 61, 49, 10] }),
    (sampleResidue, .planificacion 1),
    (sampleResidue, .syscall sampleCpu (pcbMessage .OP_CPU_SEMAPHORE samplePcb)
      [{ header := protocolHeader .CPU .OP_CPU_SEMAPHORE, payload := [119, 115] }])]

theorem sampleOverfull_taken :
    (run (serveHistory sampleParser sampleConfig)
      (State.init 1 4 [1] 1, { admitted := [], ended := [] }) sampleOverfull).isSome := by
  decide

/-- With a level of one there are two processes in the system. -/
theorem shared_variable_frees_slot :
    ¬ ∀ (parser : Parser) (config : Config) (multipgLevel memfd : Int) (semInit : List Int)
        (shared : Nat) (es : List (Residue × Event)) (t : State × History), 0 ≤ multipgLevel →
      run (serveHistory parser config)
        (State.init multipgLevel memfd semInit shared, { admitted := [], ended := [] }) es = some t →
      Throughout (serveHistory parser config) Counted
        (State.init multipgLevel memfd semInit shared, { admitted := [], ended := [] }) es := by
  intro hall
  have hrun := (Option.some_get sampleOverfull_taken).symm
  have hend := throughout_last _ _ _ _ _ (hall _ _ _ _ _ _ _ _ (by decide) hrun) hrun
  have hbound := hend.bound
  revert hbound
  decide

end Kernel

end Esther
