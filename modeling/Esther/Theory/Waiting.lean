import Esther.Theory.Semaphore

/-!
# Waiting without Need

When nobody waits at a semaphore who does not have to.

The counter of a semaphore is lowered before it is tested, and the test is for more than
zero. So the last of the waits that the counter allows is refused: its process is held
with nobody in the semaphore before it. A signal, on the other hand, puts its own caller
in the queue of requests and in `pcb_block`, and wakes the oldest request. If there is one
already, the caller stays behind, and as many are held after the signal as before it.

What is left are the waits at any other value of the counter and the signals with nobody
waiting. As long as a run has no others, the number of requests is exactly the number of
waits in excess, and that is the invariant.

## Main definitions

* `HeldBound`: No more requests than there are waits in excess.
* `SignalWakes`: A signal leaves its caller ready, and the process that waited longest.
* `Unblocking`: The requests that do no harm.
* `HeldExactly`: As many requests as there are waits in excess.

## Theorems

* `heldExactly_step`: The harmless requests keep the number of requests exact.
* `unblocking_of_step`: All others break what is claimed at once.
* `held_bound_iff`: A run is without needless waiting exactly when its requests are
  harmless.
-/

namespace Esther

namespace Kernel

open Cells Serial Transition

/-- The number of waits in excess of the signals and the initial value. -/
def Ledger.excess (l : Ledger) (n : Int) : Int := max 0 (l.waits - l.signals - n)

/-- No more processes are held at semaphore `i` than there are waits in excess. -/
def HeldBound (n : Int) (i : Nat) (s : State × Ledger) : Prop :=
  ∀ queue, s.1.solicitudesSem[i]? = some queue → (queue.length : Int) ≤ s.2.excess n

/-- As many processes are held at semaphore `i` as there are waits in excess. -/
structure HeldExactly (n : Int) (i : Nat) (s : State × Ledger) : Prop where
  balanced : s.2.Balanced n i s.1
  held : (s.2.pending.length : Int) = s.2.excess n

/-- After a signal on semaphore `i` its caller is ready, and so is the process that had
    waited longest. -/
def SignalWakes (parser : Parser) (config : Config) (i : Nat) (s : State × Ledger)
    (e : Residue × Event) : Prop :=
  match e.2 with
  | .syscall _ packet (packetSem :: _) =>
      packet.header.opcode = .OP_CPU_SEMAPHORE → semaphoreIndex config e.1 packetSem = i →
      ¬ asksWait e.1 packetSem → ∀ u, s.1.serve parser config e = some u →
        0 < occurrences (syscallPid e.1 packet) u.pcbReady
          ∧ ∀ oldest queue, s.1.solicitudesSem[i]? = some (oldest :: queue) →
            0 < occurrences oldest.idProcess u.pcbReady
  | _ => True

/-- A wait that is not for the last place in the semaphore, or a signal with nobody
    waiting, after which the caller's block, which is freed, reads as its own from then on. -/
def Unblocking (config : Config) (i : Nat) (s : State × Ledger) (e : Residue × Event) : Prop :=
  match e.2 with
  | .syscall _ packet (packetSem :: _) =>
      packet.header.opcode = .OP_CPU_SEMAPHORE → semaphoreIndex config e.1 packetSem = i →
      if asksWait e.1 packetSem then s.1.semAnsisop[i]? ≠ some 1
      else s.1.solicitudesSem[i]? = some []
        ∧ ((e.1.freed (syscallPcb e.1 packet)).idProcess = syscallPid e.1 packet
          ∨ 0 < occurrences (syscallPid e.1 packet) s.1.pcbReady)
  | _ => True

theorem heldBound_iff (n : Int) (i : Nat) (s : State × Ledger) (h : s.2.Balanced n i s.1) :
    HeldBound n i s ↔ (s.2.pending.length : Int) ≤ s.2.excess n := by
  have hrequests := h.requests
  unfold HeldBound
  cases hqueue : s.1.solicitudesSem[i]? with
  | none =>
      rw [hqueue] at hrequests
      exact absurd hrequests (by simp)
  | some queue =>
      rw [hqueue, Option.map_some, Option.some.injEq] at hrequests
      simp only [Option.some.injEq, forall_eq', hrequests]

/-- An event that is not a request on semaphore `i`. -/
def Elsewhere (config : Config) (i : Nat) (e : Residue × Event) : Prop :=
  match e.2 with
  | .syscall _ packet (packetSem :: _) =>
      ¬ (packet.header.opcode = .OP_CPU_SEMAPHORE ∧ semaphoreIndex config e.1 packetSem = i)
  | _ => True

theorem record_of_elsewhere (config : Config) (i : Nat) (k u : State) (e : Residue × Event)
    (l : Ledger) (h : Elsewhere config i e) : l.record config i k u e = l := by
  rcases e with ⟨r, event⟩
  cases event with
  | syscall cpu packet siguientes =>
      cases siguientes with
      | nil => rfl
      | cons packetSem siguientes => exact if_neg h
  | _ => rfl

theorem unblocking_of_elsewhere (config : Config) (i : Nat) (s : State × Ledger)
    (e : Residue × Event) (h : Elsewhere config i e) : Unblocking config i s e := by
  rcases e with ⟨r, event⟩
  cases event with
  | syscall cpu packet siguientes =>
      cases siguientes with
      | nil => trivial
      | cons packetSem siguientes => exact fun hop hi => absurd ⟨hop, hi⟩ h
  | _ => trivial

theorem signalWakes_of_elsewhere (parser : Parser) (config : Config) (i : Nat)
    (s : State × Ledger) (e : Residue × Event) (h : Elsewhere config i e) :
    SignalWakes parser config i s e := by
  rcases e with ⟨r, event⟩
  cases event with
  | syscall cpu packet siguientes =>
      cases siguientes with
      | nil => trivial
      | cons packetSem siguientes => exact fun hop hi => absurd ⟨hop, hi⟩ h
  | _ => trivial

/-- An event on semaphore `i` is a wait or a signal there. -/
theorem serve_of_not_elsewhere (parser : Parser) (config : Config) (i : Nat) (k u : State)
    (e : Residue × Event) (he : ¬ Elsewhere config i e) (h : k.serve parser config e = some u) :
    ∃ r cpu packet packetSem siguientes, e = (r, .syscall cpu packet (packetSem :: siguientes))
      ∧ packet.header.opcode = .OP_CPU_SEMAPHORE ∧ semaphoreIndex config r packetSem = i
      ∧ ∃ k₁, u = k₁.restoreCPU cpu
        ∧ ((asksWait r packetSem
            ∧ (k.leaveExec (syscallPid r packet)).semWait (syscallPcb r packet) i = some k₁)
          ∨ (¬ asksWait r packetSem
            ∧ (k.leaveExec (syscallPid r packet)).semSignal r (syscallPcb r packet) i
              = some k₁)) := by
  rcases e with ⟨r, event⟩
  cases event with
  | syscall cpu packet siguientes =>
      cases siguientes with
      | nil => exact absurd trivial he
      | cons packetSem siguientes =>
          -- Not elsewhere: the packet is a request for this very semaphore.
          rcases not_not.mp he with ⟨hop, hi⟩
          rcases serve_syscall parser config k u r cpu packet _ h with ⟨rest, hsyscall⟩
          refine ⟨r, cpu, packet, packetSem, siguientes, rfl, hop, hi, ?_⟩
          rcases gestionSyscall_cases config k u r cpu packet _ rest hsyscall with
            ⟨hend, -⟩ | ⟨-, packetSem', hsame, hsem⟩ | ⟨hshared, -⟩ | ⟨-, hsem, -⟩
          · exact absurd (hop.symm.trans hend) (by decide)
          · obtain ⟨rfl, rfl⟩ := List.cons.inj hsame
            rw [hi] at hsem
            rcases hsem with ⟨hwait, k₁, hk₁, rfl⟩ | ⟨hwait, k₁, hk₁, rfl⟩
            · exact ⟨k₁, rfl, Or.inl ⟨hwait, hk₁⟩⟩
            · exact ⟨k₁, rfl, Or.inr ⟨hwait, hk₁⟩⟩
          · exact absurd (hop.symm.trans hshared) (by decide)
          · exact absurd hop hsem
  | _ => exact absurd trivial he

/-- A wait, by the value of the counter: granted at two or more, and else one more
    request. -/
theorem wait_record (config : Config) (n : Int) (i : Nat) (k k₁ : State) (l : Ledger) (r : Residue)
    (cpu : Client) (packet packetSem : Packet) (siguientes : List Packet)
    (hl : l.Balanced n i k) (hop : packet.header.opcode = .OP_CPU_SEMAPHORE)
    (hi : semaphoreIndex config r packetSem = i) (hwait : asksWait r packetSem)
    (hsem : (k.leaveExec (syscallPid r packet)).semWait (syscallPcb r packet) i = some k₁) :
    (l.record config i k (k₁.restoreCPU cpu) (r, .syscall cpu packet (packetSem :: siguientes))).excess n
        = max 0 (l.waits + 1 - l.signals - n)
      ∧ ((l.record config i k (k₁.restoreCPU cpu)
          (r, .syscall cpu packet (packetSem :: siguientes))).pending.length : Int)
        = l.pending.length + (if 1 < n - l.waits + l.signals then 0 else 1) := by
  rcases semWait_cases _ _ _ _ hsem with ⟨value, queue, hvalue, -, hcases⟩
  have hcounter := hl.counter
  have hvalue' : k.semAnsisop[i]? = some value := hvalue
  rw [hvalue', Option.some.injEq] at hcounter
  simp only [Ledger.record, hop, hi, hwait, and_self, if_true, Ledger.wait]
  rcases hcases with ⟨hpos, rfl⟩ | ⟨hpos, rfl⟩
  -- The ledger tells a granted wait by `pcb_ready`, which is longer after it.
  · have hlonger : k.pcbReady.length < (State.restoreCPU
        { k.leaveExec (syscallPid r packet) with
          semAnsisop := (k.leaveExec (syscallPid r packet)).semAnsisop.set i (value - 1)
          pcbReady := (k.leaveExec (syscallPid r packet)).pcbReady ++ [syscallPcb r packet] }
        cpu).pcbReady.length := by
      simp [State.restoreCPU, State.leaveExec]
    rw [if_pos (decide_eq_true hlonger), if_pos (by omega)]
    simp [Ledger.excess]
  · have hsame : ¬ k.pcbReady.length < (State.restoreCPU
        { k.leaveExec (syscallPid r packet) with
          semAnsisop := (k.leaveExec (syscallPid r packet)).semAnsisop.set i (value - 1)
          pcbBlock := (k.leaveExec (syscallPid r packet)).pcbBlock ++ [syscallPcb r packet]
          solicitudesSem := (k.leaveExec (syscallPid r packet)).solicitudesSem.set i
            (queue ++ [syscallPcb r packet]) } cpu).pcbReady.length := by
      simp [State.restoreCPU, State.leaveExec]
    rw [if_neg (by simpa using hsame), if_neg (by omega)]
    simp [Ledger.excess]

/-- A signal, as many requests as before. -/
theorem signal_record (config : Config) (n : Int) (i : Nat) (k k₁ : State) (l : Ledger)
    (r : Residue) (cpu : Client) (packet packetSem : Packet) (siguientes : List Packet)
    (hop : packet.header.opcode = .OP_CPU_SEMAPHORE)
    (hi : semaphoreIndex config r packetSem = i) (hwait : ¬ asksWait r packetSem)
    (hsem : (k.leaveExec (syscallPid r packet)).semSignal r (syscallPcb r packet) i = some k₁) :
    (l.record config i k (k₁.restoreCPU cpu) (r, .syscall cpu packet (packetSem :: siguientes))).excess n
        = max 0 (l.waits - (l.signals + 1) - n)
      ∧ (l.record config i k (k₁.restoreCPU cpu)
          (r, .syscall cpu packet (packetSem :: siguientes))).pending.length
        = l.pending.length := by
  rcases semSignal_takes i _ k₁ r _ hsem with ⟨_, _, _, -, -, -, hleft, -⟩
  have hone : k.pendientes i + 1 - (k₁.restoreCPU cpu).pendientes i = 1 := hleft
  simp [Ledger.record, hop, hi, hwait, hone, Ledger.signal, Ledger.excess]

/-- A signal with nobody waiting makes its caller ready, if the block can still be
    read. -/
theorem signal_alone (i : Nat) (k k₁ : State) (r : Residue) (pcb : Pcb)
    (hempty : k.solicitudesSem[i]? = some []) (h : k.semSignal r pcb i = some k₁) :
    0 < occurrences pcb.idProcess k₁.pcbReady
      ↔ (r.freed pcb).idProcess = pcb.idProcess ∨ 0 < occurrences pcb.idProcess k.pcbReady := by
  rcases semSignal_cases k k₁ r pcb i h with ⟨value, queue, head, rest, -, hqueue, hsplit, rfl⟩
  rw [hempty, Option.some.injEq] at hqueue
  subst hqueue
  obtain ⟨rfl, -⟩ := List.cons.inj hsplit
  have hfound : ((k.pcbBlock ++ [pcb]).any fun pcbBlock => pcbEquals pcb pcbBlock) = true := by
    simp [pcbEquals]
  rw [hfound]
  simp only [occurrences_append, occurrences_cons, occurrences_nil, if_true]
  split
  · rename_i hsame
    simp [hsame]
  · rename_i hother
    simp only [hother, false_or]
    omega

/-- A step to a state with at most the requests in excess, after which a signal has woken
    whom it should, is harmless. -/
theorem unblocking_of_step (parser : Parser) (config : Config) (n : Int) (i : Nat)
    (s t : State × Ledger) (e : Residue × Event) (hs : HeldExactly n i s)
    (h : serveLedger parser config i s e = some t)
    (hbound : HeldBound n i t) (hwakes : SignalWakes parser config i s e) :
    Unblocking config i s e := by
  rcases s with ⟨k, l⟩
  by_cases he : Elsewhere config i e
  · exact unblocking_of_elsewhere config i _ e he
  rw [heldBound_iff n i t (balanced_serve parser config n i _ t e hs.balanced h)] at hbound
  unfold serveLedger at h
  rw [Option.map_eq_some_iff] at h
  rcases h with ⟨u, hserve, rfl⟩
  rcases serve_of_not_elsewhere parser config i k u e he hserve with
    ⟨r, cpu, packet, packetSem, siguientes, rfl, hop, hi, k₁, rfl, hsem⟩
  have hheld : (l.pending.length : Int) = max 0 (l.waits - l.signals - n) := hs.held
  have hcounter : k.semAnsisop[i]? = some (n - l.waits + l.signals) := hs.balanced.counter
  intro _ _
  rcases hsem with ⟨hwait, hsem⟩ | ⟨hwait, hsem⟩
  -- A wait at one adds a request, and there is nobody in excess.
  · rw [if_pos hwait]
    intro hone
    rw [hcounter, Option.some.injEq] at hone
    rcases wait_record config n i k k₁ l r cpu packet packetSem siguientes hs.balanced hop hi
      hwait hsem with ⟨hexcess, hpending⟩
    simp only [hexcess, hpending] at hbound
    rw [if_neg (by omega)] at hbound
    omega
  -- A signal leaves the requests as many as they are, but one less is in excess.
  · rw [if_neg hwait]
    rcases signal_record config n i k k₁ l r cpu packet packetSem siguientes hop hi hwait hsem with
      ⟨hexcess, hpending⟩
    simp only [hexcess, hpending] at hbound
    have hnone : l.pending.length = 0 := by omega
    have hrequests := hs.balanced.requests
    have hempty : k.solicitudesSem[i]? = some [] := by
      cases hqueue : k.solicitudesSem[i]? with
      | none =>
          rw [hqueue] at hrequests
          exact absurd hrequests (by simp)
      | some queue =>
          rw [hqueue, Option.map_some, Option.some.injEq, hnone] at hrequests
          rw [List.eq_nil_of_length_eq_zero hrequests]
    refine ⟨hempty, ?_⟩
    have hcaller := (hwakes hop hi hwait _ hserve).1
    exact (signal_alone i (k.leaveExec (syscallPid r packet)) k₁ r (syscallPcb r packet) hempty
      hsem).mp hcaller

/-- A harmless step keeps the number of requests exact. -/
theorem heldExactly_step (parser : Parser) (config : Config) (n : Int) (i : Nat)
    (s t : State × Ledger) (e : Residue × Event) (hs : HeldExactly n i s)
    (hok : Unblocking config i s e) (h : serveLedger parser config i s e = some t) :
    HeldExactly n i t := by
  refine ⟨balanced_serve parser config n i _ t e hs.balanced h, ?_⟩
  rcases s with ⟨k, l⟩
  unfold serveLedger at h
  rw [Option.map_eq_some_iff] at h
  rcases h with ⟨u, hserve, rfl⟩
  by_cases he : Elsewhere config i e
  · simp only [record_of_elsewhere config i k u e l he]
    exact hs.held
  rcases serve_of_not_elsewhere parser config i k u e he hserve with
    ⟨r, cpu, packet, packetSem, siguientes, rfl, hop, hi, k₁, rfl, hsem⟩
  have hheld : (l.pending.length : Int) = max 0 (l.waits - l.signals - n) := hs.held
  have hcounter : k.semAnsisop[i]? = some (n - l.waits + l.signals) := hs.balanced.counter
  have hcond := hok hop hi
  rcases hsem with ⟨hwait, hsem⟩ | ⟨hwait, hsem⟩
  -- The counter is not at one, where a wait blocks with a unit still free.
  · rw [if_pos hwait, hcounter, ne_eq, Option.some.injEq] at hcond
    rcases wait_record config n i k k₁ l r cpu packet packetSem siguientes hs.balanced hop hi
      hwait hsem with ⟨hexcess, hpending⟩
    simp only [hexcess, hpending]
    by_cases hmore : 1 < n - l.waits + l.signals
    · rw [if_pos hmore]
      omega
    · rw [if_neg hmore]
      omega
  · rw [if_neg hwait] at hcond
    have hrequests := hs.balanced.requests
    simp only [hcond.1, Option.map_some, List.length_nil, Option.some.injEq] at hrequests
    rcases signal_record config n i k k₁ l r cpu packet packetSem siguientes hop hi hwait hsem with
      ⟨hexcess, hpending⟩
    simp only [hexcess, hpending]
    omega

/-- A harmless step wakes whom it should. -/
theorem signalWakes_step (parser : Parser) (config : Config) (i : Nat) (s : State × Ledger)
    (e : Residue × Event) (hok : Unblocking config i s e) : SignalWakes parser config i s e := by
  rcases s with ⟨k, l⟩
  by_cases he : Elsewhere config i e
  · exact signalWakes_of_elsewhere parser config i _ e he
  rcases e with ⟨r, event⟩
  cases event with
  | syscall cpu packet siguientes =>
      cases siguientes with
      | nil => trivial
      | cons packetSem siguientes =>
          intro hop hi hwait u hserve
          have hcond := hok hop hi
          rw [if_neg hwait] at hcond
          -- The event is served as what it is, a signal of this semaphore.
          rcases serve_of_not_elsewhere parser config i k u _ he hserve with
            ⟨_, cpu', packet', packetSem', siguientes', hevent, -, -, k₁, rfl, hsem⟩
          simp only [Prod.mk.injEq, Event.syscall.injEq, List.cons.injEq] at hevent
          obtain ⟨rfl, rfl, rfl, rfl, rfl⟩ := hevent
          rcases hsem with ⟨hwait', -⟩ | ⟨-, hsem⟩
          · exact absurd hwait' hwait
          refine ⟨?_, fun oldest queue hqueue => ?_⟩
          · exact (signal_alone i (k.leaveExec (syscallPid r packet)) k₁ r (syscallPcb r packet)
              hcond.1 hsem).mpr hcond.2
          · -- The condition says that nobody waits, so there is no oldest request.
            exact absurd (hcond.1.symm.trans hqueue) (by simp)
  | _ => trivial

/-- In a run from start-up no more processes are held at a semaphore than there are waits
    in excess of the signals and the initial value, and every signal leaves ready its
    caller and the process that had waited longest, if and only if no wait of the run is
    for the last place in the semaphore and every signal comes when nobody is waiting and
    leaves its caller's block readable. -/
theorem held_bound_iff (parser : Parser) (config : Config) (multipgLevel memfd n : Int)
    (semInit : List Int) (shared i : Nat) (hinit : semInit[i]? = some n) (hn : 0 ≤ n)
    (es : List (Residue × Event)) (t : State × Ledger)
    (hrun : run (serveLedger parser config i)
      (State.init multipgLevel memfd semInit shared, Ledger.empty) es = some t) :
    (Throughout (serveLedger parser config i) (HeldBound n i)
          (State.init multipgLevel memfd semInit shared, Ledger.empty) es
        ∧ Along (serveLedger parser config i) (SignalWakes parser config i)
          (State.init multipgLevel memfd semInit shared, Ledger.empty) es)
      ↔ Along (serveLedger parser config i) (Unblocking config i)
        (State.init multipgLevel memfd semInit shared, Ledger.empty) es := by
  have hstart : HeldExactly n i (State.init multipgLevel memfd semInit shared, Ledger.empty) := by
    refine ⟨balanced_init multipgLevel memfd n semInit shared i hinit hn, ?_⟩
    simp only [Ledger.empty, Ledger.excess, List.length_nil]
    omega
  -- While no signal goes astray the bound is attained.
  have hexact : ∀ s : State × Ledger, HeldExactly n i s → HeldBound n i s :=
    fun s hs => (heldBound_iff n i s hs.balanced).mpr (le_of_eq hs.held)
  refine throughout_along_iff (serveLedger parser config i) (Unblocking config i)
    (SignalWakes parser config i) (HeldExactly n i) (HeldBound n i) hexact
    (fun s e u hs hok h => heldExactly_step parser config n i s u e hs hok h)
    (fun s e u hs h => ?_) _ t es hstart hrun
  constructor
  · rintro ⟨hbound, hwakes⟩
    exact unblocking_of_step parser config n i s u e hs h hbound hwakes
  · intro hok
    exact ⟨hexact u (heldExactly_step parser config n i s u e hs hok h),
      signalWakes_step parser config i s e hok⟩

set_option maxRecDepth 2000

theorem sampleWait_held_iff :
    (Throughout (serveLedger sampleParser sampleConfig 0) (HeldBound 2 0)
          (State.init 3 4 [2] 1, Ledger.empty) sampleWait
        ∧ Along (serveLedger sampleParser sampleConfig 0) (SignalWakes sampleParser sampleConfig 0)
          (State.init 3 4 [2] 1, Ledger.empty) sampleWait)
      ↔ Along (serveLedger sampleParser sampleConfig 0) (Unblocking sampleConfig 0)
        (State.init 3 4 [2] 1, Ledger.empty) sampleWait :=
  held_bound_iff sampleParser sampleConfig 3 4 2 [2] 1 0 rfl (by decide) sampleWait _
    (Option.some_get sampleWait_taken).symm

/-- The program of `sampleArrival` waits on `s`. -/
def sampleFirstWait : List (Residue × Event) := sampleWait.take 5

theorem sampleFirstWait_taken :
    (run (serveLedger sampleParser sampleConfig 0) (State.init 3 4 [1] 1, Ledger.empty)
      sampleFirstWait).isSome := by
  decide

/-- The first wait on a semaphore of initial value one blocks its process. -/
theorem first_wait_blocks :
    ¬ ∀ (parser : Parser) (config : Config) (multipgLevel memfd n : Int) (semInit : List Int)
        (shared i : Nat) (es : List (Residue × Event)) (t : State × Ledger),
      semInit[i]? = some n → 0 ≤ n →
      run (serveLedger parser config i)
        (State.init multipgLevel memfd semInit shared, Ledger.empty) es = some t →
      Throughout (serveLedger parser config i) (HeldBound n i)
          (State.init multipgLevel memfd semInit shared, Ledger.empty) es
        ∧ Along (serveLedger parser config i) (SignalWakes parser config i)
          (State.init multipgLevel memfd semInit shared, Ledger.empty) es := by
  intro hall
  have hrun := (Option.some_get sampleFirstWait_taken).symm
  have hboth := hall sampleParser sampleConfig 3 4 1 [1] 1 0 sampleFirstWait _ rfl (by decide) hrun
  have hend := throughout_last _ _ _ _ _ hboth.1 hrun
  -- One process is held, and none should be.
  have hone : ((((run (serveLedger sampleParser sampleConfig 0)
      (State.init 3 4 [1] 1, Ledger.empty) sampleFirstWait).get
        sampleFirstWait_taken).1.solicitudesSem[0]?).map List.length) = some 1 := by
    decide
  rcases Option.map_eq_some_iff.mp hone with ⟨queue, hqueue, hlength⟩
  have hbound := hend queue hqueue
  rw [hlength] at hbound
  revert hbound
  decide

end Kernel

end Esther
