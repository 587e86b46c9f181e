import Esther.Theory.Order
import Esther.Theory.Settling

/-!
# The Life of a Process

What can become of a process from one event to the next.

A process is in the state of the queue it is in, which is one queue as long as the steps keep
the partition (`StepKeeps`). `Ciclo` lists the changes there are, each with the event that
makes it and the process it happens to: a program arrives, a round admits it or gives up on it
or hands it out, a message ends its process or puts it in one of two queues, a signal wakes
one, and a console that leaves or `kill` ends those that are not running. A program that is
admitted may be handed out in the same round, so it need not be seen in `pcb_ready`.

No change goes back. `rango` counts how far a process has come, and does not fall along a run.

## Main definitions

* `State.vida`: The state of a process.
* `Ciclo`: The changes of state.
* `rango`: How far a process has come.

## Theorems

* `vida_eq_some_iff`: The state of a process is the queue it is in.
* `ciclo_step`: What a step does to a process.
* `lifecycle`: What a run does to all of them.
-/

namespace Esther

namespace Kernel

open Cells Serial Transition Lines

/-- The state of a process, by the queue it is in; none until it has been created. -/
def State.vida (k : State) (pid : Int) : Option Status :=
  if 1 ≤ pid ∧ pid ≤ k.generatorPid then
    statuses.find? fun status => (k.statusQueue status).any fun elem => elem.idProcess == pid
  else none

/-- The changes a step of the kernel can make to the state of a process. -/
inductive Ciclo (k : State) (e : Residue × Event) (pid : Int) : Option Status → Option Status → Prop
  | llega (console : Int) (program : Packet) (he : e.2 = .newProgram console program)
      (hpid : pid = k.generatorPid + 1) : Ciclo k e pid none (some .NEW)
  | entra (status : Status) (hstatus : status = .READY ∨ status = .EXEC)
      (hpid : admission k e = some pid) : Ciclo k e pid (some .NEW) (some status)
  | rechaza (hres : e.2 = .planificacion 0) (hpid : pid ∈ admisiones k e) :
      Ciclo k e pid (some .NEW) (some .EXIT)
  | despacha (hpid : pid ∈ despachos k e) : Ciclo k e pid (some .READY) (some .EXEC)
  | termina (cpu : Client) (packet : Packet) (siguientes : List Packet)
      (he : e.2 = .syscall cpu packet siguientes) (hop : packet.header.opcode = .OP_CPU_PROGRAM_END)
      (hpid : pid = syscallPid e.1 packet) : Ciclo k e pid (some .EXEC) (some .EXIT)
  | espera (cpu : Client) (packet : Packet) (siguientes : List Packet)
      (he : e.2 = .syscall cpu packet siguientes) (hop : packet.header.opcode = .OP_CPU_SEMAPHORE)
      (hpid : pid = syscallPid e.1 packet) (status : Status)
      (hstatus : status = .READY ∨ status = .BLOCK) : Ciclo k e pid (some .EXEC) (some status)
  | despierta (cpu : Client) (packet : Packet) (siguientes : List Packet)
      (he : e.2 = .syscall cpu packet siguientes) (hop : packet.header.opcode = .OP_CPU_SEMAPHORE) :
      Ciclo k e pid (some .BLOCK) (some .READY)
  | abandona (client : Client) (he : e.2 = .destroyConsole client) (hpid : pid ∈ client.pids)
      (status : Status) (hstatus : status = .NEW ∨ status = .READY ∨ status = .BLOCK) :
      Ciclo k e pid (some status) (some .EXIT)
  | mata (he : e.2 = .kill pid) (status : Status)
      (hstatus : status = .NEW ∨ status = .READY ∨ status = .BLOCK) :
      Ciclo k e pid (some status) (some .EXIT)

/-! ### Where a process is -/

theorem mem_pids_iff (pid : Int) (list : List Pcb) :
    pid ∈ pids list ↔ 0 < occurrences pid list := by
  rw [occurrences_pos, List.any_eq_true, pids, List.mem_map]
  simp only [beq_iff_eq]

theorem mem_pids_of_sublist (pid : Int) (list list' : List Pcb) (hsub : list.Sublist list')
    (h : pid ∈ pids list) : pid ∈ pids list' :=
  (hsub.map _).subset h

theorem mem_pids_removePid (pid other : Int) (list : List Pcb)
    (h : pid ∈ pids (removePid other list)) : pid ∈ pids list :=
  mem_pids_of_sublist pid _ _ (sublist_removePid other list) h

/-- Where every process is in one queue, that queue is its state. -/
theorem vida_eq_some_iff (k : State) (pid : Int) (status : Status) (hk : k.Partitioned)
    (hpid : k.Created pid) : k.vida pid = some status ↔ pid ∈ pids (k.statusQueue status) := by
  rcases hk pid hpid with ⟨donde, hone, hzero⟩
  have hmem : ∀ other, pid ∈ pids (k.statusQueue other) ↔ other = donde := by
    intro other
    rw [mem_pids_iff]
    constructor
    · intro hpos
      by_contra hne
      rw [hzero other hne] at hpos
      exact absurd hpos (Nat.lt_irrefl 0)
    · rintro rfl
      omega
  have hfind : k.vida pid = some donde := by
    unfold State.vida
    rw [if_pos (show 1 ≤ pid ∧ pid ≤ k.generatorPid from hpid)]
    have hany : ∀ other, ((k.statusQueue other).any fun elem => elem.idProcess == pid)
        = decide (other = donde) := by
      intro other
      rw [Bool.eq_iff_iff, decide_eq_true_iff, ← occurrences_pos, ← mem_pids_iff, hmem]
    simp only [hany]
    cases donde <;> rfl
  rw [hfind, hmem, Option.some.injEq]
  exact eq_comm

/-! ### Steps -/

theorem mem_admisiones (k : State) (e : Residue × Event) (pid : Int)
    (h : pid ∈ admisiones k e) : pid ∈ pids k.pcbNew := by
  unfold admisiones at h
  split at h
  · split at h
    · exact List.mem_of_mem_head? (Option.mem_toList.mp h)
    · exact absurd h List.not_mem_nil
  · exact absurd h List.not_mem_nil

theorem mem_admission (k : State) (e : Residue × Event) (pid : Int)
    (h : admission k e = some pid) : pid ∈ pids k.pcbNew := by
  unfold admission at h
  split at h
  · split at h
    · rw [← List.head?_map] at h
      exact List.mem_of_mem_head? h
    · simp only [reduceCtorEq] at h
  · simp only [reduceCtorEq] at h

/-- Who is in a queue after a round. -/
theorem ciclo_planificacion (config : Config) (k u : State) (r : Residue) (res : Int)
    (hk : k.Partitioned) (h : planificacion config k r res = some u) (pid : Int)
    (hpid : k.Created pid) (status : Status) (hstatus : pid ∈ pids (u.statusQueue status)) :
    pid ∈ pids (k.statusQueue status)
      ∨ Ciclo k (r, .planificacion res) pid (k.vida pid) (some status) := by
  rcases lines_planificacion config k u r res h with ⟨hnew, hready, hexec⟩
  have hentra : ∀ other, other = .READY ∨ other = .EXEC →
      admission k (r, .planificacion res) = some pid →
      Ciclo k (r, .planificacion res) pid (k.vida pid) (some other) := by
    intro other hother hadmission
    rw [(vida_eq_some_iff k pid .NEW hk hpid).mpr (mem_admission k _ pid hadmission)]
    exact .entra other hother hadmission
  -- Who is ready in between was ready before, or has been admitted in this round.
  have hlistos : pid ∈ pids k.pcbReady ++ listos config k (r, .planificacion res) →
      pid ∈ pids k.pcbReady ∨ admission k (r, .planificacion res) = some pid := by
    intro hmem
    rcases List.mem_append.mp hmem with hold | hcomes
    · exact Or.inl hold
    · exact Or.inr (Option.mem_toList.mp hcomes)
  cases status with
  | NEW =>
      left
      change pid ∈ pids k.pcbNew
      rw [← hnew]
      exact List.mem_append_right _ hstatus
  | READY =>
      have hmem : pid ∈ pids k.pcbReady ++ listos config k (r, .planificacion res) := by
        rw [← hready]
        exact List.mem_append_right _ hstatus
      rcases hlistos hmem with hold | hadmission
      · exact Or.inl hold
      · exact Or.inr (hentra .READY (Or.inl rfl) hadmission)
  | EXEC =>
      change pid ∈ pids u.pcbExec at hstatus
      rw [hexec] at hstatus
      rcases List.mem_append.mp hstatus with hold | hsent
      · exact Or.inl hold
      · have hmem : pid ∈ pids k.pcbReady ++ listos config k (r, .planificacion res) := by
          rw [← hready]
          exact List.mem_append_left _ hsent
        rcases hlistos hmem with hold | hadmission
        · right
          rw [(vida_eq_some_iff k pid .READY hk hpid).mpr hold]
          exact .despacha hsent
        · exact Or.inr (hentra .EXEC (Or.inr rfl) hadmission)
  | BLOCK =>
      left
      rcases planificacion_cases config k u r res h with ⟨k₁, hadmitir, n, w, -, rfl⟩
      rcases admitir_cases config k k₁ r res hadmitir with
        rfl | ⟨_, _, _, _, -, -, -, ⟨-, w, rfl⟩ | ⟨-, w, rfl⟩⟩
      · exact hstatus
      · exact hstatus
      · exact hstatus
  | EXIT =>
      rcases planificacion_cases config k u r res h with ⟨k₁, hadmitir, n, w, -, rfl⟩
      rcases admitir_cases config k k₁ r res hadmitir with
        rfl | ⟨pcb, pcbNew, _, _, hcola, -, hroom, ⟨-, w, rfl⟩ | ⟨hres, w, rfl⟩⟩
      · exact Or.inl hstatus
      · exact Or.inl hstatus
      · rcases List.mem_append.mp (pids_append _ _ ▸ hstatus) with hold | hlast
        · exact Or.inl hold
        · right
          have hadmisiones : pid ∈ admisiones k (r, .planificacion res) := by
            simp only [admisiones, State.hasRoom, decide_eq_true hroom, if_true, hcola, pids,
              List.map_cons, List.head?_cons, Option.toList_some]
            exact hlast
          rw [(vida_eq_some_iff k pid .NEW hk hpid).mpr (mem_admisiones k _ pid hadmisiones)]
          exact .rechaza (by rw [hres]) hadmisiones

/-- Who is in a queue after a message that keeps the partition. -/
theorem ciclo_syscall (parser : Parser) (config : Config) (k u : State) (r : Residue)
    (cpu : Client) (packet : Packet) (siguientes : List Packet) (hk : k.Partitioned)
    (hkeeps : StepKeeps config k (r, .syscall cpu packet siguientes))
    (h : k.step parser config (r, .syscall cpu packet siguientes) = some u) (pid : Int)
    (hpid : k.Created pid) (status : Status) (hstatus : pid ∈ pids (u.statusQueue status)) :
    pid ∈ pids (k.statusQueue status)
      ∨ Ciclo k (r, .syscall cpu packet siguientes) pid (k.vida pid) (some status) := by
  have hexec : pid = syscallPid r packet → k.vida pid = some .EXEC := by
    intro hself
    have hexpects := (step_syscall parser config k u r cpu packet siguientes h).1
    exact (vida_eq_some_iff k pid .EXEC hk hpid).mpr
      ((mem_pids_iff pid _).mpr (hself ▸ exec_of_expects k r packet hexpects))
  rcases step_syscall_cases parser config k u r cpu packet siguientes h with
    ⟨-, ⟨hop, rfl⟩ | ⟨hop, packetSem, rfl, hsem⟩ | ⟨hop, values, w, rfl⟩⟩
  · -- The process of the message ends.
    rcases endProgram_eq (k.leaveExec (syscallPid r packet)) r (syscallPcb r packet)
      exitSuccessful with ⟨w, heq⟩
    rw [heq] at hstatus
    cases status with
    | NEW => exact Or.inl (mem_pids_removePid pid _ _ hstatus)
    | READY => exact Or.inl (mem_pids_removePid pid _ _ hstatus)
    | EXEC => exact Or.inl (mem_pids_removePid pid _ _ (mem_pids_removePid pid _ _ hstatus))
    | BLOCK => exact Or.inl (mem_pids_removePid pid _ _ hstatus)
    | EXIT =>
        rcases List.mem_append.mp (pids_append _ _ ▸ hstatus) with hold | hlast
        · exact Or.inl (mem_pids_removePid pid _ _ hold)
        · have hself : pid = syscallPid r packet := List.mem_singleton.mp hlast
          rw [hexec hself]
          exact Or.inr (.termina cpu packet siguientes rfl hop hself)
  · have hespera : ∀ other, other = .READY ∨ other = .BLOCK → pid = syscallPid r packet →
        Ciclo k (r, .syscall cpu packet [packetSem]) pid (k.vida pid) (some other) := by
      intro other hother hself
      rw [hexec hself]
      refine .espera cpu packet [packetSem] ?_ hop ?_ other hother
      · rfl
      · exact hself
    rcases hsem with ⟨-, k₁, hsem, rfl⟩ | ⟨hsignal, k₁, hsem, rfl⟩
    · -- A wait puts its caller in one of two queues.
      rcases semWait_cases _ _ _ _ hsem with ⟨_, _, -, -, ⟨-, rfl⟩ | ⟨-, rfl⟩⟩
      · cases status with
        | NEW => exact Or.inl hstatus
        | READY =>
            rcases List.mem_append.mp (pids_append _ _ ▸ hstatus) with hold | hlast
            · exact Or.inl hold
            · exact Or.inr (hespera .READY (Or.inl rfl) (List.mem_singleton.mp hlast))
        | EXEC => exact Or.inl (mem_pids_removePid pid _ _ hstatus)
        | BLOCK => exact Or.inl hstatus
        | EXIT => exact Or.inl hstatus
      · cases status with
        | NEW => exact Or.inl hstatus
        | READY => exact Or.inl hstatus
        | EXEC => exact Or.inl (mem_pids_removePid pid _ _ hstatus)
        | BLOCK =>
            rcases List.mem_append.mp (pids_append _ _ ▸ hstatus) with hold | hlast
            · exact Or.inl hold
            · exact Or.inr (hespera .BLOCK (Or.inr rfl) (List.mem_singleton.mp hlast))
        | EXIT => exact Or.inl hstatus
    · rcases semSignal_cases _ _ _ _ _ hsem with ⟨_, queue, head, tail, -, hqueue, hsplit, rfl⟩
      have hhead := oldestRequest_eq queue (syscallPcb r packet) head tail hsplit
      have hqueue' : k.solicitudesSem[semaphoreIndex config r packetSem]? = some queue := hqueue
      simp only [StepKeeps, hop, hqueue', Option.some.injEq, forall_eq', hhead] at hkeeps
      have hsano := hkeeps.resolve_left hsignal
      cases status with
      | NEW => exact Or.inl hstatus
      | READY =>
          rcases List.mem_append.mp (pids_append _ _ ▸ hstatus) with hold | hlast
          · exact Or.inl hold
          · right
            have hany : ((k.leaveExec (syscallPid r packet)).pcbBlock ++ [syscallPcb r packet]).any
                (fun pcbBlock => pcbEquals head pcbBlock)
                = k.blockedWith (syscallPcb r packet) head.idProcess :=
              any_pcbEquals_block _ _ head
            have hnumber := List.mem_singleton.mp hlast
            simp only [hany] at hnumber
            unfold SignalKeeps at hsano
            by_cases hblocked : k.blockedWith (syscallPcb r packet) head.idProcess = true
            · rw [if_pos hblocked] at hsano hnumber
              -- The block that is made ready is read as the one that was found in `pcb_block`,
              -- or as one behind it.
              have hin : pid ∈ pids (k.pcbBlock ++ [syscallPcb r packet]) := by
                rcases hsano with hsame | ⟨-, hbehind⟩
                · rw [State.blockedWith, ← occurrences_pos, ← mem_pids_iff] at hblocked
                  rwa [hnumber, hsame]
                · rw [hnumber] at hpid ⊢
                  exact mem_pids_of_sublist _ _ _ (blocksAfter_sublist head _)
                    ((mem_pids_iff _ _).mpr (hbehind hpid).2)
              rw [pids_append] at hin
              rcases List.mem_append.mp hin with hold | hcaller
              · rw [(vida_eq_some_iff k pid .BLOCK hk hpid).mpr hold]
                exact .despierta cpu packet [packetSem] rfl hop
              · exact hespera .READY (Or.inl rfl) (List.mem_singleton.mp hcaller)
            · rw [if_neg hblocked] at hsano hnumber
              rw [hnumber] at hpid
              exact absurd hpid hsano
      | EXEC => exact Or.inl (mem_pids_removePid pid _ _ hstatus)
      | BLOCK =>
          have hin :=
              mem_pids_of_sublist pid _ _ (removeReady_sublist head _ _) hstatus
          rcases List.mem_append.mp (pids_append _ _ ▸ hin) with hold | hlast
          · exact Or.inl hold
          · exact Or.inr (hespera .BLOCK (Or.inr rfl) (List.mem_singleton.mp hlast))
      | EXIT => exact Or.inl hstatus
  · cases status with
    | NEW => exact Or.inl hstatus
    | READY => exact Or.inl hstatus
    | EXEC => exact Or.inl (mem_pids_removePid pid _ _ hstatus)
    | BLOCK => exact Or.inl hstatus
    | EXIT => exact Or.inl hstatus

/-- Who is in a queue after a console has left. -/
theorem ciclo_destroyConsole (k : State) (r : Residue) (client : Client) (hk : k.Partitioned)
    (pid : Int) (hpid : k.Created pid) (status : Status)
    (hstatus : pid ∈ pids ((destroyConsole k r client).statusQueue status)) :
    pid ∈ pids (k.statusQueue status)
      ∨ Ciclo k (r, .destroyConsole client) pid (k.vida pid) (some status) := by
  rcases destroyConsole_eq k r client with ⟨consolas, ended, f, w, heq, hended, -, -⟩
  rw [heq] at hstatus
  have hwithout : ∀ list, pid ∈ pids (without (doomed k client.pids) list) → pid ∈ pids list :=
    fun list hmem => ((sublist_without _ list).map _).subset hmem
  cases status with
  | NEW => exact Or.inl (hwithout _ hstatus)
  | READY => exact Or.inl (hwithout _ hstatus)
  | EXEC => exact Or.inl (hwithout _ hstatus)
  | BLOCK => exact Or.inl (hwithout _ hstatus)
  | EXIT =>
      rcases List.mem_append.mp (pids_append _ _ ▸ hstatus) with hold | hlast
      · exact Or.inl (hwithout _ hold)
      · rw [mem_pids_iff, hended pid] at hlast
        have hdoomed : pid ∈ doomed k client.pids := by
          by_contra hc
          rw [if_neg hc] at hlast
          exact absurd hlast (Nat.lt_irrefl 0)
        rcases List.mem_filter.mp hdoomed with ⟨hmem, hends⟩
        have habandona : ∀ other, other = .NEW ∨ other = .READY ∨ other = .BLOCK →
            pid ∈ pids (k.statusQueue other) →
            Ciclo k (r, .destroyConsole client) pid (k.vida pid) (some .EXIT) := by
          intro other hother hwhere
          rw [(vida_eq_some_iff k pid other hk hpid).mpr hwhere]
          exact .abandona client rfl hmem other hother
        rcases (ends_iff k pid).mp hends with hnew | hready | ⟨-, hblock | hexit⟩
        · exact Or.inr (habandona .NEW (Or.inl rfl) ((mem_pids_iff pid _).mpr hnew))
        · exact Or.inr (habandona .READY (Or.inr (Or.inl rfl)) ((mem_pids_iff pid _).mpr hready))
        · exact Or.inr (habandona .BLOCK (Or.inr (Or.inr rfl)) ((mem_pids_iff pid _).mpr hblock))
        · exact Or.inl ((mem_pids_iff pid _).mpr hexit)

/-- Who is in a queue after a round of `kill`. -/
theorem ciclo_terminalKill (k : State) (r : Residue) (other : Int) (hk : k.Partitioned)
    (pid : Int) (hpid : k.Created pid) (status : Status)
    (hstatus : pid ∈ pids ((terminalKill k other).statusQueue status)) :
    pid ∈ pids (k.statusQueue status)
      ∨ Ciclo k (r, .kill other) pid (k.vida pid) (some status) := by
  have hkept : ∀ queue, pid ∈ pids (killIn other queue).1 → pid ∈ pids queue :=
    fun queue hmem => ((killIn_sublist other queue).map _).subset hmem
  -- A block that is moved is one of the process, and was in the queue.
  have hmoved : ∀ donde, donde = .NEW ∨ donde = .READY ∨ donde = .BLOCK →
      pid ∈ pids (killIn other (k.statusQueue donde)).2 →
      Ciclo k (r, .kill other) pid (k.vida pid) (some .EXIT) := by
    intro donde hwhere hmem
    rcases List.mem_map.mp hmem with ⟨pcb, hpcb, rfl⟩
    have hself := (killIn_moved other _ pcb hpcb).1
    have hin : pcb.idProcess ∈ pids (k.statusQueue donde) := by
      rcases killIn_cases other (k.statusQueue donde) with
        ⟨-, heq⟩ | ⟨-, before, found, after, hfound, hqueue, -⟩
      · rw [heq] at hpcb
        exact absurd hpcb List.not_mem_nil
      · rw [hqueue, pids_append, hself, ← hfound]
        exact List.mem_append_right _ List.mem_cons_self
    rw [(vida_eq_some_iff k _ donde hk hpid).mpr hin]
    exact .mata (by rw [hself]) donde hwhere
  cases status with
  | NEW => exact Or.inl (hkept _ hstatus)
  | READY => exact Or.inl (hkept _ hstatus)
  | EXEC => exact Or.inl hstatus
  | BLOCK => exact Or.inl (hkept _ hstatus)
  | EXIT =>
      change pid ∈ pids (k.pcbExit ++ (killIn other k.pcbNew).2 ++ (killIn other k.pcbBlock).2
        ++ (killIn other k.pcbReady).2) at hstatus
      rw [pids_append, pids_append, pids_append, List.mem_append, List.mem_append,
        List.mem_append] at hstatus
      rcases hstatus with ((hold | hnew) | hblock) | hready
      · exact Or.inl hold
      · exact Or.inr (hmoved .NEW (Or.inl rfl) hnew)
      · exact Or.inr (hmoved .BLOCK (Or.inr (Or.inr rfl)) hblock)
      · exact Or.inr (hmoved .READY (Or.inr (Or.inl rfl)) hready)

/-- Who is in a queue after a step that keeps the partition. -/
theorem ciclo_cola (parser : Parser) (config : Config) (k u : State) (e : Residue × Event)
    (hk : k.Partitioned) (hkeeps : StepKeeps config k e) (h : k.step parser config e = some u)
    (pid : Int) (hpid : k.Created pid) (status : Status)
    (hstatus : pid ∈ pids (u.statusQueue status)) :
    pid ∈ pids (k.statusQueue status) ∨ Ciclo k e pid (k.vida pid) (some status) := by
  rcases e with ⟨r, event⟩
  cases event with
  | connectConsole fd =>
      rw [step_connectConsole parser config k u r fd h] at hstatus
      left
      cases status <;> exact hstatus
  | connectCpu fd =>
      rw [step_connectCpu parser config k u r fd h] at hstatus
      left
      cases status <;> exact hstatus
  | newProgram console program =>
      rcases gestionDatosNewPcb_cases parser config k u r program console h with
        ⟨pcb, _, w, hnumber, -, -, rfl⟩
      left
      cases status with
      | NEW =>
          rcases List.mem_append.mp (pids_append _ _ ▸ hstatus) with hold | hlast
          · exact hold
          · -- The number of the new program had not been given before.
            have hself : pid = pcb.idProcess := List.mem_singleton.mp hlast
            have hbound := hpid.2
            omega
      | READY => exact hstatus
      | EXEC => exact hstatus
      | BLOCK => exact hstatus
      | EXIT => exact hstatus
  | planificacion res => exact ciclo_planificacion config k u r res hk h pid hpid status hstatus
  | syscall cpu packet siguientes =>
      exact ciclo_syscall parser config k u r cpu packet siguientes hk hkeeps h pid hpid status
        hstatus
  | destroyConsole client =>
      rw [step_destroyConsole parser config k u r client h] at hstatus
      exact ciclo_destroyConsole k r client hk pid hpid status hstatus
  | kill other =>
      rw [(step_kill parser config k u r other h).2] at hstatus
      exact ciclo_terminalKill k r other hk pid hpid status hstatus

/-- A process that is created in a step is the one that arrives. -/
theorem ciclo_creado (parser : Parser) (config : Config) (k u : State) (e : Residue × Event)
    (hu : u.Partitioned) (h : k.step parser config e = some u) (pid : Int)
    (hpid : ¬ k.Created pid) (hcreado : u.Created pid) :
    Ciclo k e pid none (u.vida pid) := by
  rcases e with ⟨r, event⟩
  -- Only a new program is given a number.
  have hviejo : u.generatorPid ≠ k.generatorPid := by
    intro hsame
    unfold State.Created at hpid hcreado
    rw [hsame] at hcreado
    exact hpid hcreado
  cases event with
  | connectConsole fd => exact absurd (by rw [step_connectConsole parser config k u r fd h]) hviejo
  | connectCpu fd =>
      rw [step_connectCpu parser config k u r fd h] at hviejo
      exact absurd rfl hviejo
  | newProgram console program =>
      rcases gestionDatosNewPcb_cases parser config k u r program console h with
        ⟨pcb, _, w, hnumber, -, -, rfl⟩
      -- The number is the next one: those below it have been given before.
      have hself : pid = k.generatorPid + 1 := by
        unfold State.Created at hpid hcreado
        simp only at hcreado
        omega
      have hnew : pid ∈ pids (k.pcbNew ++ [pcb]) := by
        rw [pids_append, hself, ← hnumber]
        exact List.mem_append_right _ List.mem_cons_self
      rw [(vida_eq_some_iff _ pid .NEW hu hcreado).mpr hnew]
      exact .llega console program rfl hself
  | planificacion res => exact absurd (keeps_planificacion config k u r res h).1 hviejo
  | syscall cpu packet siguientes =>
      have hsyscall := (step_syscall parser config k u r cpu packet siguientes h).2
      exact absurd (gestionSyscall_numbers config k u r cpu packet siguientes [] hsyscall).1 hviejo
  | destroyConsole client =>
      rw [step_destroyConsole parser config k u r client h] at hviejo
      exact absurd (keeps_destroyConsole k r client).1 hviejo
  | kill other =>
      rw [(step_kill parser config k u r other h).2] at hviejo
      exact absurd rfl hviejo

/-- A step that keeps the partition makes one of the changes, or none. -/
theorem ciclo_step (parser : Parser) (config : Config) (k u : State) (e : Residue × Event)
    (hgen : 0 ≤ k.generatorPid) (hk : k.Partitioned) (hkeeps : StepKeeps config k e)
    (h : k.step parser config e = some u) (pid : Int) :
    u.vida pid = k.vida pid ∨ Ciclo k e pid (k.vida pid) (u.vida pid) := by
  have hu := (partitioned_step_iff parser config k u e hgen hk h).mpr hkeeps
  have hmayor := generatorPid_le_step parser config k u e h
  by_cases hcreado : u.Created pid
  · by_cases hpid : k.Created pid
    · rcases hu pid hcreado with ⟨status, hone, -⟩
      have hstatus : pid ∈ pids (u.statusQueue status) := by
        rw [mem_pids_iff]
        omega
      rw [(vida_eq_some_iff u pid status hu hcreado).mpr hstatus]
      rcases ciclo_cola parser config k u e hk hkeeps h pid hpid status hstatus with hold | hcambia
      · exact Or.inl ((vida_eq_some_iff k pid status hk hpid).mpr hold).symm
      · exact Or.inr hcambia
    · have hnone : k.vida pid = none := if_neg hpid
      rw [hnone]
      exact Or.inr (ciclo_creado parser config k u e hu h pid hpid hcreado)
  · have hpid : ¬ k.Created pid := fun hc => hcreado ⟨hc.1, le_trans hc.2 hmayor⟩
    exact Or.inl ((if_neg hcreado).trans (if_neg hpid).symm)

/-! ### Runs -/

/-- How far a process has come. -/
def rango : Option Status → Nat
  | none => 0
  | some .NEW => 1
  | some .EXIT => 3
  | some _ => 2

theorem rango_ciclo (k : State) (e : Residue × Event) (pid : Int) (vida vida' : Option Status)
    (h : Ciclo k e pid vida vida') : rango vida ≤ rango vida' := by
  cases h with
  | llega console program he hpid => exact Nat.zero_le _
  | entra status hstatus hpid => rcases hstatus with rfl | rfl <;> exact Nat.le_succ 1
  | rechaza hres hpid => exact Nat.le_succ_of_le (Nat.le_succ 1)
  | despacha hpid => exact Nat.le_refl 2
  | termina cpu packet siguientes he hop hpid => exact Nat.le_succ 2
  | espera cpu packet siguientes he hop hpid status hstatus =>
      rcases hstatus with rfl | rfl <;> exact Nat.le_refl 2
  | despierta cpu packet siguientes he hop => exact Nat.le_refl 2
  | abandona client he hpid status hstatus =>
      rcases hstatus with rfl | rfl | rfl <;> simp [rango]
  | mata he status hstatus => rcases hstatus with rfl | rfl | rfl <;> simp [rango]

/-- In a run from start-up whose steps keep the partition, every step takes every process along
    its life cycle or leaves it where it is, and no process ever goes back: one that has been
    admitted is not new again, and one that has ended stays in `pcb_exit`. -/
theorem lifecycle (parser : Parser) (config : Config) (multipgLevel memfd : Int)
    (semInit : List Int) (shared : Nat) (es : List (Residue × Event))
    (hkeeps : Along (State.step parser config) (StepKeeps config)
      (State.init multipgLevel memfd semInit shared) es) :
    Along (State.step parser config)
        (fun k e => ∀ u, k.step parser config e = some u → ∀ pid,
          u.vida pid = k.vida pid ∨ Ciclo k e pid (k.vida pid) (u.vida pid))
        (State.init multipgLevel memfd semInit shared) es
      ∧ ∀ pid, Onward (State.step parser config) (fun k u => rango (k.vida pid) ≤ rango (u.vida pid))
        (State.init multipgLevel memfd semInit shared) es := by
  have hsteps : Along (State.step parser config)
      (fun k e => ∀ u, k.step parser config e = some u → ∀ pid,
        u.vida pid = k.vida pid ∨ Ciclo k e pid (k.vida pid) (u.vida pid))
      (State.init multipgLevel memfd semInit shared) es := by
    refine along_of_invariant (State.step parser config) (StepKeeps config) _
      (fun k => 0 ≤ k.generatorPid ∧ k.Partitioned) ?_ ?_ _ es ?_ hkeeps
    · intro k e u hk hok h
      exact ⟨le_trans hk.1 (generatorPid_le_step parser config k u e h),
        (partitioned_step_iff parser config k u e hk.1 hk.2 h).mpr hok⟩
    · exact fun k e hk hok u h pid => ciclo_step parser config k u e hk.1 hk.2 hok h pid
    · exact ⟨le_refl 0, partitioned_init multipgLevel memfd semInit shared⟩
  refine ⟨hsteps, fun pid => ?_⟩
  -- The ranks are compared along the steps, and those of any two states follow.
  refine (onward_iff_along (State.step parser config)
    (fun k u => rango (k.vida pid) ≤ rango (u.vida pid)) (fun k => le_refl _)
    (fun k u v hku huv => le_trans hku huv) _ es).mpr ?_
  refine along_of_invariant (State.step parser config) _ _ (fun _ => True)
    (fun _ _ _ _ _ _ => trivial) ?_ _ es trivial hsteps
  intro k e _ h u hu
  rcases h u hu pid with hsame | hciclo
  · -- Where it stays its rank stays.
    rw [hsame]
  · exact rango_ciclo k e pid _ _ hciclo

/-- A program arrives and is dispatched in the round that admits it. -/
theorem sampleArrival_keeps :
    Along (State.step sampleParser sampleConfig) (StepKeeps sampleConfig) (State.init 3 4 [1] 1)
      sampleArrival := by
  refine ⟨trivial, fun u hu => ⟨trivial, fun v hv => ⟨?_, fun w _ => ⟨trivial, fun x _ => trivial⟩⟩⟩⟩
  -- Nobody has the number 1 yet.
  rw [step_connectCpu _ _ u v _ _ hv, step_connectConsole _ _ _ u _ _ hu]
  rfl

/-- Process 1 does not go back. -/
theorem sampleArrival_lifecycle :
    Onward (State.step sampleParser sampleConfig)
      (fun k u => rango (k.vida 1) ≤ rango (u.vida 1)) (State.init 3 4 [1] 1) sampleArrival :=
  (lifecycle sampleParser sampleConfig 3 4 [1] 1 sampleArrival sampleArrival_keeps).2 1

end Kernel

end Esther
