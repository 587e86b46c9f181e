import Esther.Theory.Partition

/-!
# Semaphore Accounting

How many waits on a semaphore have been granted, in any run of the kernel and for
any messages the CPUs send.

The kernel keeps a counter and a list of requests for every semaphore, and updates
the two separately. A signal puts its own caller's request in the list before it
takes the oldest one out, so the list holds the requests of waiting processes and
of signalling ones, and its length says nothing about the counter.

`Ledger` is the bookkeeping the kernel does not do: what was asked for, what was
granted, and which of the requests pending are waits. It is written down from the
states before and after a message: a wait is granted at once if `pcb_ready` is longer
afterwards, and at a signal the requests that have left `solicitudes_sem` are granted,
the oldest first, as many as `pcb_ready` has become longer by. What it shows is that the
counter is the initial value less the waits plus the signals, that a wait is granted at
once only if this is more than the number of waits there have been, and that a signal
hands over no more than one request.

## Main definitions

* `Ledger`: The waits, the signals, and what became of them.
* `Ledger.record`: One event, written down.
* `Ledger.Balanced`: The ledger and the kernel agree.
* `Entrega`: What a request puts in `pcb_ready` and in `solicitudes_sem`.

## Theorems

* `entrega_serve`: What a wait and a signal hand over.
* `balanced_serve`: Every event keeps the balance.
* `granted_le_signals`: Never more waits granted than the initial value and the
  signals allow.
-/

namespace Esther

namespace Kernel

open Cells Serial Transition

/-- What has happened on one semaphore. `pending` says of every request, the oldest
    first, whether it is a wait. -/
structure Ledger where
  waits : Nat
  signals : Nat
  granted : Nat
  pending : List Bool
deriving DecidableEq, Repr

def Ledger.empty : Ledger := { waits := 0, signals := 0, granted := 0, pending := [] }

/-- A wait, granted at once or not. -/
def Ledger.wait (l : Ledger) (now : Bool) : Ledger :=
  if now then { l with waits := l.waits + 1, granted := l.granted + 1 }
  else { l with waits := l.waits + 1, pending := l.pending ++ [true] }

/-- A signal: its own request is the newest. So many of the oldest requests have left the
    queue, and of these so many have got into `pcb_ready`. -/
def Ledger.signal (l : Ledger) (left ready : Nat) : Ledger :=
  let line := l.pending ++ [false]
  { l with
    signals := l.signals + 1
    granted := l.granted + ((line.take left).take ready).count true
    pending := line.drop left }

/-- How many requests are in `solicitudes_sem[i]`. -/
def State.pendientes (k : State) (i : Nat) : Nat :=
  match k.solicitudesSem[i]? with
  | some queue => queue.length
  | none => 0

/-- An event, written down in the ledger of semaphore `i` from the kernel before and after
    it. A wait is granted at once if `pcb_ready` is longer afterwards. Of the requests that a
    signal has found or made, those are no more pending that `solicitudes_sem` has no more. -/
def Ledger.record (config : Config) (i : Nat) (k u : State) (e : Residue × Event) (l : Ledger) :
    Ledger :=
  match e.2 with
  | .syscall _ packet (packetSem :: _) =>
      if packet.header.opcode = .OP_CPU_SEMAPHORE ∧ semaphoreIndex config e.1 packetSem = i then
        if asksWait e.1 packetSem then l.wait (k.pcbReady.length < u.pcbReady.length)
        else
          l.signal (k.pendientes i + 1 - u.pendientes i) (u.pcbReady.length - k.pcbReady.length)
      else l
  | _ => l

/-- The kernel and the ledger of semaphore `i`, together. -/
def serveLedger (parser : Parser) (config : Config) (i : Nat) (s : State × Ledger)
    (e : Residue × Event) : Option (State × Ledger) :=
  (s.1.serve parser config e).map fun u => (u, s.2.record config i s.1 u e)

/-- The counter is the initial value less the waits plus the signals, every wait is
    granted or pending, and no more are granted than allowed. -/
structure Ledger.Balanced (n : Int) (i : Nat) (k : State) (l : Ledger) : Prop where
  counter : k.semAnsisop[i]? = some (n - l.waits + l.signals)
  requests : (k.solicitudesSem[i]?).map List.length = some l.pending.length
  waits : l.granted + l.pending.count true = l.waits
  granted : (l.granted : Int) ≤ n + l.signals

/-- A wait has its process put in `pcb_ready`, or makes it the newest of the requests. What a
    signal puts in `pcb_ready` are the oldest of them, its own included, as their blocks are
    read by then, and they are the ones that `solicitudes_sem` has no more. -/
def Entrega (parser : Parser) (config : Config) (i : Nat) (s : State × Ledger)
    (e : Residue × Event) : Prop :=
  match e.2 with
  | .syscall _ packet (packetSem :: _) =>
      packet.header.opcode = .OP_CPU_SEMAPHORE → semaphoreIndex config e.1 packetSem = i →
      ∀ u, s.1.serve parser config e = some u →
        let pcb := syscallPcb e.1 packet
        ∃ queue, s.1.solicitudesSem[i]? = some queue
          ∧ (asksWait e.1 packetSem →
              (u.pcbReady = s.1.pcbReady ++ [pcb] ∧ u.solicitudesSem[i]? = some queue)
              ∨ (u.pcbReady = s.1.pcbReady ∧ u.solicitudesSem[i]? = some (queue ++ [pcb])))
          ∧ (¬ asksWait e.1 packetSem → ∃ taken rest, queue ++ [pcb] = taken ++ rest
              ∧ u.pendientes i = rest.length
              ∧ u.pcbReady = s.1.pcbReady ++ taken.map fun aux =>
                if s.1.blockedWith pcb aux.idProcess then e.1.freed aux else aux)
  | _ => True

/-- Neither the counter nor the number of requests is touched. -/
def SemUntouched (i : Nat) (k u : State) : Prop :=
  u.semAnsisop[i]? = k.semAnsisop[i]?
    ∧ (u.solicitudesSem[i]?).map List.length = (k.solicitudesSem[i]?).map List.length

theorem balanced_of_untouched (n : Int) (i : Nat) (k u : State) (l : Ledger)
    (h : SemUntouched i k u) (hl : l.Balanced n i k) : l.Balanced n i u :=
  ⟨h.1.trans hl.counter, h.2.trans hl.requests, hl.waits, hl.granted⟩

theorem untouched_trans (i : Nat) (k u v : State) (hku : SemUntouched i k u)
    (huv : SemUntouched i u v) : SemUntouched i k v :=
  ⟨huv.1.trans hku.1, huv.2.trans hku.2⟩

theorem untouched_of_eq (i : Nat) (k u : State) (hsem : u.semAnsisop = k.semAnsisop)
    (hsol : u.solicitudesSem = k.solicitudesSem) : SemUntouched i k u := by
  unfold SemUntouched
  rw [hsem, hsol]
  exact ⟨rfl, rfl⟩

/-- Rewriting the requests one by one leaves their number. -/
theorem untouched_of_map (i : Nat) (k u : State) (f : Pcb → Pcb)
    (hsem : u.semAnsisop = k.semAnsisop)
    (hsol : u.solicitudesSem = k.solicitudesSem.map fun queue => queue.map f) :
    SemUntouched i k u := by
  unfold SemUntouched
  rw [hsem, hsol, List.getElem?_map, Option.map_map]
  refine ⟨rfl, ?_⟩
  cases k.solicitudesSem[i]? with
  | none => rfl
  | some queue => simp

theorem untouched_endProgram (i : Nat) (k : State) (r : Residue) (pcb : Pcb) (code : Int) :
    SemUntouched i k (k.endProgram r pcb code) := by
  rcases endProgram_eq k r pcb code with ⟨w, heq⟩
  rw [heq]
  exact untouched_of_map i k _ _ rfl rfl

theorem untouched_endConsolePrograms (i : Nat) (r : Residue) (k : State) (pids : List Int) :
    SemUntouched i k (endConsolePrograms r k pids) := by
  induction pids generalizing k with
  | nil => exact untouched_of_eq i k k rfl rfl
  | cons pid pids ih =>
      unfold endConsolePrograms
      split
      · split
        · exact ih k
        · exact untouched_trans i _ _ _ (untouched_endProgram i k r _ _) (ih _)
      · exact ih k

theorem untouched_planificacion (i : Nat) (config : Config) (k u : State) (r : Residue)
    (res : Int) (h : planificacion config k r res = some u) : SemUntouched i k u := by
  rcases planificacion_cases config k u r res h with ⟨k₁, hadm, n, w, -, rfl⟩
  rcases admitir_cases config k k₁ r res hadm with rfl
    | ⟨_, _, _, _, -, -, -, ⟨-, w', rfl⟩ | ⟨-, w', rfl⟩⟩
  · exact untouched_of_eq i _ _ rfl rfl
  · exact untouched_of_eq i _ _ rfl rfl
  · exact untouched_of_eq i _ _ rfl rfl

theorem untouched_terminalKill (i : Nat) (k : State) (pid : Int) :
    SemUntouched i k (terminalKill k pid) := by
  by_cases hblock : (killIn pid k.pcbBlock).2 = []
  · exact untouched_of_eq i _ _ rfl (if_pos hblock)
  · exact untouched_of_map i _ _
      (fun aux => if aux.idProcess == pid then { aux with exitCode := -2, status := exitStatus }
        else aux) rfl (if_neg hblock)

/-- What is at an index that was there before it was set. -/
theorem getElem?_set_of_some {α : Type} (list : List α) (i : Nat) (a b : α)
    (h : list[i]? = some a) : (list.set i b)[i]? = some b := by
  rcases List.getElem?_eq_some_iff.mp h with ⟨hlt, -⟩
  rw [List.getElem?_set_self hlt]

/-- What the record of a semaphore says about its entry. -/
theorem balanced_entry (n : Int) (i : Nat) (k : State) (l : Ledger) (value : Int) (queue : List Pcb)
    (hl : l.Balanced n i k) (hvalue : k.semAnsisop[i]? = some value)
    (hqueue : k.solicitudesSem[i]? = some queue) :
    value = n - l.waits + l.signals ∧ queue.length = l.pending.length := by
  have hcounter := hl.counter
  have hrequests := hl.requests
  rw [hvalue, Option.some.injEq] at hcounter
  rw [hqueue, Option.map_some, Option.some.injEq] at hrequests
  exact ⟨hcounter, hrequests⟩

/-- A wait on this semaphore. -/
theorem balanced_semWait (n : Int) (i : Nat) (k u : State) (l : Ledger) (pcb : Pcb)
    (hl : l.Balanced n i k) (h : k.semWait pcb i = some u) :
    (l.wait (k.pcbReady.length < u.pcbReady.length)).Balanced n i u := by
  rcases semWait_cases k u pcb i h with ⟨value, queue, hvalue, hqueue, hcases⟩
  rcases balanced_entry n i k l value queue hl hvalue hqueue with ⟨hcounter, hrequests⟩
  have hwaits := hl.waits
  have hgranted := hl.granted
  rcases hcases with ⟨hpos, rfl⟩ | ⟨hpos, rfl⟩
  -- Granted at once: more have been allowed than have waited.
  · unfold Ledger.wait
    rw [if_pos (by simp)]
    refine ⟨?_, ?_, ?_, ?_⟩
    · rw [getElem?_set_of_some _ _ _ _ hvalue, hcounter]
      congr 1
      push_cast
      omega
    · simp only [hqueue, Option.map_some, hrequests]
    · simp only
      omega
    · simp only
      push_cast
      omega
  -- The wait is pending.
  · unfold Ledger.wait
    rw [if_neg (by simp)]
    refine ⟨?_, ?_, ?_, ?_⟩
    · rw [getElem?_set_of_some _ _ _ _ hvalue, hcounter]
      congr 1
      push_cast
      omega
    · simp [getElem?_set_of_some _ _ _ _ hqueue, hrequests]
    · simp only [List.count_append, List.count_singleton_self]
      omega
    · exact hgranted

/-- A signal takes one request out of the queue, and one block gets into `pcb_ready`. -/
theorem semSignal_takes (i : Nat) (k u : State) (r : Residue) (pcb : Pcb)
    (h : k.semSignal r pcb i = some u) :
    ∃ queue head rest, k.solicitudesSem[i]? = some queue ∧ queue ++ [pcb] = head :: rest
      ∧ u.pendientes i = rest.length ∧ k.pendientes i + 1 - u.pendientes i = 1
      ∧ u.pcbReady = k.pcbReady
        ++ [if k.blockedWith pcb head.idProcess then r.freed head else head] := by
  rcases semSignal_cases k u r pcb i h with ⟨value, queue, head, rest, -, hqueue, hsplit, rfl⟩
  have hlength := congrArg List.length hsplit
  rw [List.length_append, List.length_singleton, List.length_cons] at hlength
  -- The requests that are left may have been freed, but they are as many.
  have hafter : State.pendientes { k with
      semAnsisop := k.semAnsisop.set i (value + 1)
      pcbReady := k.pcbReady ++
        [if (k.pcbBlock ++ [pcb]).any fun pcbBlock => pcbEquals head pcbBlock
          then r.freed head else head]
      pcbBlock := removeReady head (readBehind r queue head) (k.pcbBlock ++ [pcb])
      solicitudesSem := (k.solicitudesSem.set i rest).map fun aux =>
        aux.map (requestLeft r head (readBehind r queue head) (k.pcbBlock ++ [pcb])) } i = rest.length := by
    simp only [State.pendientes, List.getElem?_map, getElem?_set_of_some _ _ _ _ hqueue,
      Option.map_some, List.length_map]
  have hbefore : k.pendientes i = queue.length := by
    simp only [State.pendientes, hqueue]
  refine ⟨queue, head, rest, hqueue, hsplit, hafter, ?_, ?_⟩
  · rw [hafter, hbefore]
    omega
  · rw [any_pcbEquals_block]

/-- A signal on this semaphore. -/
theorem balanced_semSignal (n : Int) (i : Nat) (k u : State) (r : Residue) (l : Ledger) (pcb : Pcb)
    (hl : l.Balanced n i k) (h : k.semSignal r pcb i = some u) :
    (l.signal (k.pendientes i + 1 - u.pendientes i)
      (u.pcbReady.length - k.pcbReady.length)).Balanced n i u := by
  rcases semSignal_takes i k u r pcb h with ⟨_, _, _, -, -, -, hleft, hready⟩
  have hone : u.pcbReady.length - k.pcbReady.length = 1 := by
    rw [hready, List.length_append, List.length_singleton]
    omega
  rw [hleft, hone]
  rcases semSignal_cases k u r pcb i h with
    ⟨value, queue, head, rest, hvalue, hqueue, hsplit, rfl⟩
  rcases balanced_entry n i k l value queue hl hvalue hqueue with ⟨hcounter, hrequests⟩
  have hwaits := hl.waits
  have hgranted := hl.granted
  have hlength : rest.length = l.pending.length := by
    have hlen := congrArg List.length hsplit
    rw [List.length_append, List.length_singleton, List.length_cons] at hlen
    omega
  -- The oldest request leaves; it counts as a wait or it does not.
  have hcount : (((l.pending ++ [false]).take 1).take 1).count true
      + ((l.pending ++ [false]).drop 1).count true = l.pending.count true := by
    rw [List.take_take, Nat.min_self, ← List.count_append, List.take_append_drop,
      List.count_append]
    rfl
  have hle : (((l.pending ++ [false]).take 1).take 1).count true ≤ 1 := by
    refine le_trans List.count_le_length ?_
    rw [List.take_take, Nat.min_self]
    exact List.length_take_le 1 _
  unfold Ledger.signal
  refine ⟨?_, ?_, ?_, ?_⟩
  · rw [getElem?_set_of_some _ _ _ _ hvalue, hcounter]
    congr 1
    push_cast
    omega
  · simp only [List.getElem?_map, getElem?_set_of_some _ _ _ _ hqueue, Option.map_some,
      List.length_map, List.length_drop, List.length_append, List.length_singleton, hlength]
    rfl
  · simp only
    omega
  · simp only
    push_cast
    omega

/-- An operation on another semaphore. -/
theorem untouched_semWait_of_ne (i j : Nat) (k u : State) (pcb : Pcb) (hij : j ≠ i)
    (h : k.semWait pcb j = some u) : SemUntouched i k u := by
  rcases semWait_cases k u pcb j h with ⟨value, queue, -, -, ⟨-, rfl⟩ | ⟨-, rfl⟩⟩
  · exact ⟨List.getElem?_set_ne hij, rfl⟩
  · refine ⟨List.getElem?_set_ne hij, ?_⟩
    simp only [List.getElem?_set_ne hij]

theorem untouched_semSignal_of_ne (i j : Nat) (k u : State) (r : Residue) (pcb : Pcb)
    (hij : j ≠ i) (h : k.semSignal r pcb j = some u) : SemUntouched i k u := by
  rcases semSignal_cases k u r pcb j h with ⟨value, queue, head, rest, -, -, -, rfl⟩
  refine ⟨List.getElem?_set_ne hij, ?_⟩
  simp only [List.getElem?_map, List.getElem?_set_ne hij, Option.map_map, Function.comp_def,
    List.length_map]

/-- A message about something else is not written down. -/
theorem record_of_ne (config : Config) (i : Nat) (k u : State) (r : Residue) (cpu : Client)
    (packet : Packet) (siguientes : List Packet) (l : Ledger)
    (hop : packet.header.opcode ≠ .OP_CPU_SEMAPHORE) :
    l.record config i k u (r, .syscall cpu packet siguientes) = l := by
  cases siguientes with
  | nil => rfl
  | cons packetSem siguientes => simp [Ledger.record, hop]

/-- A message of a CPU keeps the balance. -/
theorem balanced_gestionSyscall (config : Config) (n : Int) (i : Nat) (k u : State) (r : Residue)
    (cpu : Client) (packet : Packet) (siguientes rest : List Packet) (l : Ledger)
    (hl : l.Balanced n i k)
    (h : gestionSyscall config k r packet cpu siguientes = some (u, rest)) :
    (l.record config i k u (r, .syscall cpu packet siguientes)).Balanced n i u := by
  rcases gestionSyscall_cases config k u r cpu packet siguientes rest h with
    ⟨hop, rfl⟩ | ⟨hop, packetSem, rfl, hsem⟩ | ⟨hop, values, w, rfl⟩ | ⟨-, hop, -, rfl⟩
  · rw [record_of_ne config i k _ r cpu packet siguientes l (by simp [hop])]
    exact balanced_of_untouched n i k _ l
      (untouched_endProgram i (k.leaveExec (syscallPid r packet)) r _ _) hl
  · by_cases hi : semaphoreIndex config r packetSem = i
    -- The semaphore the ledger is about.
    · subst hi
      rcases hsem with ⟨hwait, k₁, hsem, rfl⟩ | ⟨hwait, k₁, hsem, rfl⟩
      · have hbal := balanced_semWait n _ (k.leaveExec (syscallPid r packet)) k₁ l _
          (balanced_of_untouched n _ k _ l (untouched_of_eq _ _ _ rfl rfl) hl) hsem
        simp only [Ledger.record, hop, hwait, and_self, if_true]
        exact ⟨hbal.counter, hbal.requests, hbal.waits, hbal.granted⟩
      · have hbal := balanced_semSignal n _ (k.leaveExec (syscallPid r packet)) k₁ r l _
          (balanced_of_untouched n _ k _ l (untouched_of_eq _ _ _ rfl rfl) hl) hsem
        simp only [Ledger.record, hop, hwait, and_self, if_true]
        exact ⟨hbal.counter, hbal.requests, hbal.waits, hbal.granted⟩
    -- Another one: neither its counter nor its queue moves.
    · have hrecord : l.record config i k u (r, .syscall cpu packet (packetSem :: rest)) = l := by
        simp [Ledger.record, hi]
      rw [hrecord]
      rcases hsem with ⟨-, k₁, hsem, rfl⟩ | ⟨-, k₁, hsem, rfl⟩
      · exact balanced_of_untouched n i k _ l
          (untouched_semWait_of_ne i _ (k.leaveExec (syscallPid r packet)) k₁ _ hi hsem) hl
      · exact balanced_of_untouched n i k _ l
          (untouched_semSignal_of_ne i _ (k.leaveExec (syscallPid r packet)) k₁ r _ hi hsem) hl
  · rw [record_of_ne config i k _ r cpu packet siguientes l (by simp [hop])]
    exact balanced_of_untouched n i k _ l (untouched_of_eq i _ _ rfl rfl) hl
  · rw [record_of_ne config i k _ r cpu packet siguientes l (by simp [hop])]
    exact balanced_of_untouched n i k _ l (untouched_of_eq i _ _ rfl rfl) hl

/-- Every event keeps the balance. -/
theorem balanced_serve (parser : Parser) (config : Config) (n : Int) (i : Nat)
    (s t : State × Ledger) (e : Residue × Event) (hs : s.2.Balanced n i s.1)
    (h : serveLedger parser config i s e = some t) : t.2.Balanced n i t.1 := by
  rcases s with ⟨k, l⟩
  rcases e with ⟨r, event⟩
  unfold serveLedger at h
  rw [Option.map_eq_some_iff] at h
  rcases h with ⟨u, hserve, rfl⟩
  cases event with
  -- Only a syscall can touch the semaphore.
  | syscall cpu packet siguientes =>
      rcases serve_syscall parser config k u r cpu packet siguientes hserve with ⟨rest, hsyscall⟩
      exact balanced_gestionSyscall config n i k u r cpu packet siguientes rest l hs hsyscall
  | connectConsole fd =>
      obtain rfl := step_connectConsole parser config k u r fd hserve
      exact balanced_of_untouched n i k _ l (untouched_of_eq i _ _ rfl rfl) hs
  | connectCpu fd =>
      obtain rfl := step_connectCpu parser config k u r fd hserve
      exact balanced_of_untouched n i k _ l (untouched_of_eq i _ _ rfl rfl) hs
  | newProgram console program =>
      rcases gestionDatosNewPcb_cases parser config k u r program console hserve with
        ⟨_, _, _, -, -, -, rfl⟩
      exact balanced_of_untouched n i k _ l (untouched_of_eq i _ _ rfl rfl) hs
  | planificacion res =>
      exact balanced_of_untouched n i k u l (untouched_planificacion i config k u r res hserve) hs
  | destroyConsole client =>
      obtain rfl := step_destroyConsole parser config k u r client hserve
      exact balanced_of_untouched n i k _ l
        (untouched_trans i _ _ _ (untouched_of_eq i _ _ rfl rfl)
          (untouched_endConsolePrograms i r _ _)) hs
  | kill pid =>
      rcases step_kill parser config k u r pid hserve with ⟨-, rfl⟩
      exact balanced_of_untouched n i k _ l (untouched_terminalKill i k pid) hs

/-- The kernel starts in balance. -/
theorem balanced_init (multipgLevel memfd n : Int) (semInit : List Int) (shared i : Nat)
    (hinit : semInit[i]? = some n) (hn : 0 ≤ n) :
    Ledger.empty.Balanced n i (State.init multipgLevel memfd semInit shared) := by
  refine ⟨?_, ?_, rfl, ?_⟩
  · simpa [State.init, Ledger.empty] using hinit
  · simp only [State.init, List.getElem?_map, hinit, Option.map_some]
    rfl
  · simpa [Ledger.empty] using hn

/-- What a wait and a signal hand over. -/
theorem entrega_serve (parser : Parser) (config : Config) (i : Nat) (s : State × Ledger)
    (e : Residue × Event) : Entrega parser config i s e := by
  rcases e with ⟨r, event⟩
  cases event with
  | syscall cpu packet siguientes =>
      cases siguientes with
      | nil => trivial
      | cons packetSem siguientes =>
          intro hop hi u hserve
          rcases serve_syscall parser config s.1 u r cpu packet _ hserve with ⟨rest, hsyscall⟩
          rcases gestionSyscall_cases config s.1 u r cpu packet _ rest hsyscall with
            ⟨hend, -⟩ | ⟨-, packetSem', hsame, hsem⟩ | ⟨hshared, -⟩ | ⟨-, hother, -⟩
          · exact absurd (hop.symm.trans hend) (by decide)
          · obtain ⟨rfl, rfl⟩ := List.cons.inj hsame
            rcases hsem with ⟨hwait, k₁, hsem, rfl⟩ | ⟨hwait, k₁, hsem, rfl⟩
            · rw [hi] at hsem
              -- The process is ready at once, or its request is the newest.
              rcases semWait_cases _ k₁ _ i hsem with
                ⟨_, queue, -, hqueue, ⟨-, rfl⟩ | ⟨-, rfl⟩⟩
              · exact ⟨queue, hqueue, fun _ => Or.inl ⟨rfl, hqueue⟩, fun hno => absurd hwait hno⟩
              · exact ⟨queue, hqueue,
                  fun _ => Or.inr ⟨rfl, getElem?_set_of_some _ _ _ _ hqueue⟩,
                  fun hno => absurd hwait hno⟩
            · rw [hi] at hsem
              -- Of the requests with the caller's own, the oldest one leaves.
              rcases semSignal_takes i _ k₁ r _ hsem with
                ⟨queue, head, left, hqueue, hsplit, hlength, -, hready⟩
              exact ⟨queue, hqueue, fun hyes => absurd hyes hwait,
                fun _ => ⟨[head], left, hsplit, hlength, hready⟩⟩
          · exact absurd (hop.symm.trans hshared) (by decide)
          · exact absurd hop hother
  | _ => trivial

/-- In any run, whatever the CPUs send, at most as many waits on a semaphore have been granted
    as its initial value and the signals handled so far. What the ledger has as pending are the
    requests in `solicitudes_sem`, all other waits are granted, and what becomes ready is the
    process of a wait or requests that a signal takes out. -/
theorem granted_le_signals (parser : Parser) (config : Config) (multipgLevel memfd n : Int)
    (semInit : List Int) (shared i : Nat) (hinit : semInit[i]? = some n) (hn : 0 ≤ n)
    (es : List (Residue × Event)) (t : State × Ledger)
    (hrun : run (serveLedger parser config i)
      (State.init multipgLevel memfd semInit shared, Ledger.empty) es = some t) :
    (t.2.granted : Int) ≤ n + t.2.signals
      ∧ t.1.pendientes i = t.2.pending.length
      ∧ t.2.granted + t.2.pending.count true = t.2.waits
      ∧ Along (serveLedger parser config i) (Entrega parser config i)
        (State.init multipgLevel memfd semInit shared, Ledger.empty) es := by
  have hbalanced : t.2.Balanced n i t.1 :=
    run_invariant (serveLedger parser config i) (fun s => s.2.Balanced n i s.1)
      (fun s e t hs h => balanced_serve parser config n i s t e hs h) _ _ es
      (balanced_init multipgLevel memfd n semInit shared i hinit hn) hrun
  refine ⟨hbalanced.granted, ?_, hbalanced.waits, ?_⟩
  · have hrequests := hbalanced.requests
    unfold State.pendientes
    cases hqueue : t.1.solicitudesSem[i]? with
    | none =>
        rw [hqueue] at hrequests
        exact absurd hrequests.symm (Option.some_ne_none _)
    | some queue =>
        rw [hqueue, Option.map_some, Option.some.injEq] at hrequests
        exact hrequests
  · exact along_of_invariant (serveLedger parser config i) (fun _ _ => True) _ (fun _ => True)
      (fun _ _ _ _ _ _ => trivial) (fun s e _ _ => entrega_serve parser config i s e) _ es
      trivial (along_true _ _ es)

set_option maxRecDepth 2000

/-- The program of `sampleArrival` waits on `s` and is granted it, is dispatched
    again, and signals. -/
def sampleWait : List (Residue × Event) :=
  sampleArrival ++
    [(sampleResidue, .syscall sampleCpu (pcbMessage .OP_CPU_SEMAPHORE samplePcb)
      [{ header := protocolHeader .CPU .OP_CPU_SEMAPHORE, payload := [119, 115] }]),
    (sampleResidue, .planificacion 0),
    (sampleResidue, .syscall sampleCpu (pcbMessage .OP_CPU_SEMAPHORE samplePcb)
      [{ header := protocolHeader .CPU .OP_CPU_SEMAPHORE, payload := [115, 115] }])]

theorem sampleWait_taken :
    (run (serveLedger sampleParser sampleConfig 0) (State.init 3 4 [2] 1, Ledger.empty)
      sampleWait).isSome := by
  decide

theorem sampleWait_granted_le :
    (((run (serveLedger sampleParser sampleConfig 0) (State.init 3 4 [2] 1, Ledger.empty)
        sampleWait).get sampleWait_taken).2.granted : Int)
      ≤ 2 + ((run (serveLedger sampleParser sampleConfig 0) (State.init 3 4 [2] 1, Ledger.empty)
        sampleWait).get sampleWait_taken).2.signals :=
  (granted_le_signals sampleParser sampleConfig 3 4 2 [2] 1 0 rfl (by decide) sampleWait _
    (Option.some_get sampleWait_taken).symm).1

end Kernel

end Esther
