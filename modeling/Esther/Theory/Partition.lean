import Esther.Lib.Transition
import Esther.Theory.Kernel

/-!
# The Queues as a Partition

Whether every process the kernel has created is in exactly one of the five
queues, exactly once, after any sequence of events.

The argument counts. `State.total` adds up how often a number occurs in the five
queues, and every handler is a statement about that sum: scheduling and `kill`
keep it, ending a program makes it one, and so does a wait. There are three ways
of losing the partition, and `StepKeeps` names them.

A message about a shared variable takes its process out of `pcb_exec` and puts it
nowhere. A signal puts the process of the oldest request in `pcb_ready`, also when
that process has been killed and is in `pcb_exit`; and when it does find the block
in `pcb_block` it frees it there, while `pcb_ready` goes on pointing at it. The
third is a consequence of this: a freed block can read as a number not yet given.

## Main definitions

* `State.Created`: The numbers given to a process.
* `State.Partitioned`: Every process is in one queue, once.
* `StepKeeps`: The steps that keep the partition.

## Theorems

* `partitioned_step_iff`: One step keeps the partition exactly when `StepKeeps`.
* `partitioned_throughout_iff`: A run keeps it exactly when all its steps do.
* `shared_variable_loses_process`: A run that loses a process.
-/

namespace Esther

namespace Kernel

open Cells Serial Transition

/-- How often a process occurs in a list. -/
def occurrences (pid : Int) (list : List Pcb) : Nat :=
  list.countP fun pcb => pcb.idProcess == pid

/-- How often a process occurs in the five queues together. -/
def State.total (k : State) (pid : Int) : Nat :=
  occurrences pid k.pcbNew + occurrences pid k.pcbReady + occurrences pid k.pcbExec
    + occurrences pid k.pcbBlock + occurrences pid k.pcbExit

/-- The numbers `generator_pid` has given. -/
def State.Created (k : State) (pid : Int) : Prop := 1 ≤ pid ∧ pid ≤ k.generatorPid

/-- Every process created is in exactly one queue, and once there. -/
def State.Partitioned (k : State) : Prop :=
  ∀ pid, k.Created pid → ∃ status, occurrences pid (k.statusQueue status) = 1
    ∧ ∀ other, other ≠ status → occurrences pid (k.statusQueue other) = 0

/-- Whether a process is in `pcb_block` once the caller of a signal is. -/
def State.blockedWith (k : State) (pcb : Pcb) (pid : Int) : Bool :=
  (k.pcbBlock ++ [pcb]).any fun pcbBlock => pcbBlock.idProcess == pid

/-- A signal that makes `head` ready keeps the partition: the block is found in
    `pcb_block`, where it is freed, and reads the same from then on. The other cases are
    about numbers that belong to no process. A block of such a number, if it is not the
    caller's, may be read as one of a process that is blocked behind it, which is removed from
    `pcb_block` then. -/
def SignalKeeps (k : State) (r : Residue) (queue : List Pcb) (pcb head : Pcb) : Prop :=
  if k.blockedWith pcb head.idProcess then
    (r.freed head).idProcess = head.idProcess
      ∨ (¬ k.Created head.idProcess ∧ (k.Created (r.freed head).idProcess → queue ≠ [] ∧
          0 < occurrences (r.freed head).idProcess (blocksAfter head (k.pcbBlock ++ [pcb]))))
  else ¬ k.Created head.idProcess

/-- The block a signal takes out of the requests. -/
def oldestRequest (queue : List Pcb) (pcb : Pcb) : Pcb := queue.headD pcb

/-- The steps that keep the partition. -/
def StepKeeps (config : Config) (k : State) (e : Residue × Event) : Prop :=
  match e.2 with
  | .newProgram _ _ => k.total (k.generatorPid + 1) = 0
  | .syscall _ packet siguientes => match packet.header.opcode, siguientes with
    | .OP_CPU_SHARED_VAR, _ => ¬ k.Created (syscallPid e.1 packet)
    | .OP_CPU_SEMAPHORE, packetSem :: _ =>
        asksWait e.1 packetSem ∨
          ∀ queue, k.solicitudesSem[semaphoreIndex config e.1 packetSem]? = some queue →
            SignalKeeps k e.1 queue (syscallPcb e.1 packet)
              (oldestRequest queue (syscallPcb e.1 packet))
    | _, _ => True
  | _ => True

@[simp] theorem occurrences_nil (pid : Int) : occurrences pid [] = 0 := rfl

@[simp] theorem occurrences_append (pid : Int) (list list' : List Pcb) :
    occurrences pid (list ++ list') = occurrences pid list + occurrences pid list' :=
  List.countP_append

@[simp] theorem occurrences_cons (pid : Int) (pcb : Pcb) (list : List Pcb) :
    occurrences pid (pcb :: list)
      = occurrences pid list + if pcb.idProcess = pid then 1 else 0 := by
  simp [occurrences, List.countP_cons]

@[simp] theorem occurrences_removePid (pid other : Int) (list : List Pcb) :
    occurrences pid (removePid other list) = if other = pid then 0 else occurrences pid list := by
  unfold occurrences removePid
  rw [List.countP_filter]
  by_cases hpid : other = pid
  · rw [if_pos hpid, List.countP_eq_zero]
    intro pcb _ h
    simp [hpid] at h
    exact h.2 h.1.symm
  · rw [if_neg hpid]
    apply List.countP_congr
    intro pcb _
    by_cases heq : pcb.idProcess = pid
    · subst heq
      simp [hpid]
    · simp [heq]

theorem occurrences_pos (pid : Int) (list : List Pcb) :
    0 < occurrences pid list ↔ list.any (fun pcb => pcb.idProcess == pid) := by
  unfold occurrences
  rw [List.countP_pos_iff, List.any_eq_true]

theorem any_pcbEquals (pcb : Pcb) (list : List Pcb) :
    (list.any fun elem => pcbEquals pcb elem) = decide (0 < occurrences pcb.idProcess list) := by
  rw [Bool.eq_iff_iff, decide_eq_true_iff, occurrences_pos]
  simp only [pcbEquals, Bool.beq_comm]

theorem blocksAfter_sublist (pcb : Pcb) (list : List Pcb) :
    (blocksAfter pcb list).Sublist list := by
  induction list with
  | nil => exact List.Sublist.refl _
  | cons elem list ih =>
      rw [blocksAfter]
      split
      · exact (List.Sublist.refl list).cons elem
      · exact ih.cons elem

/-- The blocks behind the first one of a process are all of its blocks but one. -/
theorem occurrences_blocksAfter (pcb : Pcb) (list : List Pcb)
    (h : 0 < occurrences pcb.idProcess list) :
    occurrences pcb.idProcess (blocksAfter pcb list) + 1 = occurrences pcb.idProcess list := by
  induction list with
  | nil => exact absurd h (Nat.lt_irrefl 0)
  | cons elem list ih =>
      rw [blocksAfter, occurrences_cons] at *
      by_cases hsame : elem.idProcess = pcb.idProcess
      · rw [if_pos (show pcbEquals pcb elem = true from beq_iff_eq.mpr hsame.symm), if_pos hsame]
      · rw [if_neg (show ¬ pcbEquals pcb elem = true from fun hc => hsame (beq_iff_eq.mp hc).symm),
          if_neg hsame]
        rw [if_neg hsame] at h
        exact ih h

/-- The first block of `pcbReady` is removed, and the blocks behind it that have the number
    it reads as then. -/
theorem occurrences_removeReady (pcbReady leido : Pcb) (list : List Pcb) (pid : Int)
    (h : 0 < occurrences pcbReady.idProcess list) :
    occurrences pid (removeReady pcbReady leido list)
        + (if pcbReady.idProcess = pid then 1 else 0)
        + (if leido.idProcess = pid then occurrences pid (blocksAfter pcbReady list) else 0)
      = occurrences pid list := by
  induction list with
  | nil => exact absurd h (Nat.lt_irrefl 0)
  | cons elem list ih =>
      rw [occurrences_cons] at h
      rw [removeReady, blocksAfter, occurrences_cons]
      by_cases hsame : elem.idProcess = pcbReady.idProcess
      · have hequal : pcbEquals pcbReady elem = true := beq_iff_eq.mpr hsame.symm
        rw [if_pos hequal, if_pos hequal, occurrences_removePid, hsame]
        split
        · omega
        · omega
      · have hother : ¬ pcbEquals pcbReady elem = true := fun hc => hsame (beq_iff_eq.mp hc).symm
        rw [if_neg hsame] at h
        rw [if_neg hother, if_neg hother, occurrences_cons]
        have hrest := ih h
        omega

/-- Nothing is removed if no block has the number. -/
theorem removeReady_of_none (pcbReady leido : Pcb) (list : List Pcb)
    (h : occurrences pcbReady.idProcess list = 0) : removeReady pcbReady leido list = list := by
  induction list with
  | nil => rfl
  | cons elem list ih =>
      rw [occurrences_cons] at h
      by_cases hsame : elem.idProcess = pcbReady.idProcess
      · rw [if_pos hsame] at h
        omega
      · have hother : ¬ pcbEquals pcbReady elem = true := fun hc => hsame (beq_iff_eq.mp hc).symm
        rw [if_neg hsame] at h
        rw [removeReady, if_neg hother, ih h]

theorem occurrences_take_drop (pid : Int) (n : Nat) (list : List Pcb) :
    occurrences pid (list.take n) + occurrences pid (list.drop n) = occurrences pid list := by
  rw [← occurrences_append, List.take_append_drop]

theorem exists_status (p : Status → Prop) :
    (∃ status, p status) ↔ p .NEW ∨ p .READY ∨ p .EXEC ∨ p .BLOCK ∨ p .EXIT := by
  constructor
  · rintro ⟨status, h⟩
    cases status <;> simp [h]
  · rintro (h | h | h | h | h) <;> exact ⟨_, h⟩

theorem forall_status (p : Status → Prop) :
    (∀ status, p status) ↔ p .NEW ∧ p .READY ∧ p .EXEC ∧ p .BLOCK ∧ p .EXIT := by
  constructor
  · intro h
    exact ⟨h _, h _, h _, h _, h _⟩
  · rintro ⟨hnew, hready, hexec, hblock, hexit⟩ status
    cases status <;> assumption

/-- Being in one queue, once, is occurring once in all of them. -/
theorem total_eq_one_iff (k : State) (pid : Int) :
    k.total pid = 1 ↔ ∃ status, occurrences pid (k.statusQueue status) = 1
      ∧ ∀ other, other ≠ status → occurrences pid (k.statusQueue other) = 0 := by
  unfold State.total
  simp only [exists_status, forall_status, State.statusQueue, ne_eq, reduceCtorEq,
    not_true_eq_false, not_false_eq_true, forall_const, false_implies, true_and, and_true]
  omega

theorem partitioned_iff (k : State) :
    k.Partitioned ↔ ∀ pid, k.Created pid → k.total pid = 1 := by
  unfold State.Partitioned
  simp only [total_eq_one_iff]

/-- A step that creates nothing and leaves every process that is in one place in
    one place. -/
def Keeps (k u : State) : Prop :=
  u.generatorPid = k.generatorPid ∧ ∀ pid, k.total pid = 1 → u.total pid = 1

theorem partitioned_of_keeps (k u : State) (hkeeps : Keeps k u) (h : k.Partitioned) :
    u.Partitioned := by
  rw [partitioned_iff] at h ⊢
  intro pid hcreated
  unfold State.Created at hcreated
  rw [hkeeps.1] at hcreated
  exact hkeeps.2 pid (h pid hcreated)

theorem keeps_of_total_eq (k u : State) (hgen : u.generatorPid = k.generatorPid)
    (htotal : ∀ pid, u.total pid = k.total pid) : Keeps k u :=
  ⟨hgen, fun pid h => (htotal pid).trans h⟩

theorem keeps_trans (k u v : State) (hku : Keeps k u) (huv : Keeps u v) : Keeps k v :=
  ⟨huv.1.trans hku.1, fun pid h => huv.2 pid (hku.2 pid h)⟩

/-- A process that is admitted, or given up on, leaves `pcb_new` for another queue. -/
theorem total_admitir (config : Config) (k u : State) (r : Residue) (res : Int)
    (h : admitir config k r res = some u) :
    u.generatorPid = k.generatorPid ∧ ∀ pid, u.total pid = k.total pid := by
  rcases admitir_cases config k u r res h with rfl | ⟨pcb, pcbNew, code, codesMs, hnew, -, -, hres⟩
  · exact ⟨rfl, fun _ => rfl⟩
  · rcases hres with ⟨-, w', rfl⟩ | ⟨-, w', rfl⟩
    -- The process enters `pcb_ready`.
    · refine ⟨rfl, fun pid => ?_⟩
      simp only [State.total, hnew, occurrences_append, occurrences_cons, occurrences_nil, admitted]
      omega
    -- Memory has no room, the process goes to `pcb_exit`.
    · refine ⟨rfl, fun pid => ?_⟩
      simp only [State.total, hnew, occurrences_append, occurrences_cons, occurrences_nil]
      omega

/-- Scheduling moves processes from one queue to another. -/
theorem total_planificacion (config : Config) (k u : State) (r : Residue) (res : Int)
    (h : planificacion config k r res = some u) :
    u.generatorPid = k.generatorPid ∧ ∀ pid, u.total pid = k.total pid := by
  rcases planificacion_cases config k u r res h with ⟨k₁, hadm, n, w, -, rfl⟩
  rcases total_admitir config k k₁ r res hadm with ⟨hgen, htotal⟩
  refine ⟨hgen, fun pid => ?_⟩
  have hsplit := occurrences_take_drop pid n k₁.pcbReady
  rw [← htotal pid]
  simp only [State.total, occurrences_append]
  omega

theorem keeps_planificacion (config : Config) (k u : State) (r : Residue) (res : Int)
    (h : planificacion config k r res = some u) : Keeps k u :=
  keeps_of_total_eq k u (total_planificacion config k u r res h).1
    (total_planificacion config k u r res h).2

/-- A process that has ended is in `pcb_exit` and nowhere else. -/
theorem total_endProgram (k : State) (r : Residue) (pcb : Pcb) (code : Int) (pid : Int) :
    (k.endProgram r pcb code).total pid = if pcb.idProcess = pid then 1 else k.total pid := by
  rcases endProgram_eq k r pcb code with ⟨w, heq⟩
  rw [heq]
  simp only [State.total, occurrences_append, occurrences_removePid, occurrences_cons,
    occurrences_nil]
  by_cases hpid : pcb.idProcess = pid
  · simp only [if_pos hpid]
  · simp only [if_neg hpid, Nat.add_zero]

theorem generatorPid_endProgram (k : State) (r : Residue) (pcb : Pcb) (code : Int) :
    (k.endProgram r pcb code).generatorPid = k.generatorPid := by
  rcases endProgram_eq k r pcb code with ⟨w, heq⟩
  rw [heq]

theorem keeps_endProgram (k : State) (r : Residue) (pcb : Pcb) (code : Int) :
    Keeps k (k.endProgram r pcb code) := by
  refine ⟨generatorPid_endProgram k r pcb code, fun pid h => ?_⟩
  rw [total_endProgram]
  by_cases hpid : pcb.idProcess = pid
  · rw [if_pos hpid]
  · rw [if_neg hpid, h]

/-- A console that leaves ends its programs one after another. -/
theorem keeps_endConsolePrograms (r : Residue) (k : State) (pids : List Int) :
    Keeps k (endConsolePrograms r k pids) := by
  induction pids generalizing k with
  | nil => exact keeps_of_total_eq _ _ rfl fun _ => rfl
  | cons pid pids ih =>
      unfold endConsolePrograms
      split
      · split
        · exact ih k
        · exact keeps_trans _ _ _ (keeps_endProgram k r _ _) (ih _)
      · exact ih k

theorem keeps_destroyConsole (k : State) (r : Residue) (client : Client) :
    Keeps k (destroyConsole k r client) :=
  keeps_trans _ _ _ (keeps_of_total_eq _ _ rfl fun _ => rfl) (keeps_endConsolePrograms r _ _)

/-- `kill` moves a block out of a queue, or leaves the queue alone. -/
theorem occurrences_killIn (pid other : Int) (queue : List Pcb) :
    occurrences other (killIn pid queue).1 + occurrences other (killIn pid queue).2
      = occurrences other queue := by
  induction queue with
  | nil => rfl
  | cons pcb queue ih =>
      unfold killIn at ih ⊢
      by_cases hpid : pcb.idProcess = pid
      · simp [hpid]
      · have hne : (pcb.idProcess == pid) = false := by simp [hpid]
        rw [List.find?_cons_of_neg (by simp [hpid])]
        split at ih
        · simp only [occurrences_cons, occurrences_nil, List.eraseP_cons, hne, cond_false] at ih ⊢
          omega
        · simp only [occurrences_nil, Nat.add_zero]

theorem total_terminalKill (k : State) (pid other : Int) :
    (terminalKill k pid).total other = k.total other := by
  have hnew := occurrences_killIn pid other k.pcbNew
  have hblock := occurrences_killIn pid other k.pcbBlock
  have hready := occurrences_killIn pid other k.pcbReady
  simp only [State.total, terminalKill, occurrences_append]
  omega

theorem keeps_terminalKill (k : State) (pid : Int) : Keeps k (terminalKill k pid) :=
  keeps_of_total_eq _ _ rfl (total_terminalKill k pid)

/-- What a process loses by leaving `pcb_exec`. -/
theorem total_leaveExec (k : State) (pid other : Int) :
    (k.leaveExec pid).total other + (if pid = other then occurrences other k.pcbExec else 0)
      = k.total other := by
  simp only [State.total, State.leaveExec, occurrences_removePid]
  by_cases hpid : pid = other
  · simp only [if_pos hpid]
    omega
  · simp only [if_neg hpid]
    omega

/-- The caller of a system call was in `pcb_exec`. -/
theorem exec_of_expects (k : State) (r : Residue) (packet : Packet) (h : k.expects r packet) :
    0 < occurrences (syscallPid r packet) k.pcbExec := by
  unfold State.expects at h
  rw [Bool.and_eq_true] at h
  exact (occurrences_pos _ _).mpr h.2

/-- A wait puts its caller in `pcb_ready` or in `pcb_block`. -/
theorem total_semWait (k u : State) (pcb : Pcb) (i : Nat) (h : k.semWait pcb i = some u)
    (pid : Int) : u.total pid = k.total pid + if pcb.idProcess = pid then 1 else 0 := by
  rcases semWait_cases k u pcb i h with ⟨value, queue, -, -, ⟨-, rfl⟩ | ⟨-, rfl⟩⟩
  · simp only [State.total, occurrences_append, occurrences_cons, occurrences_nil]
    omega
  · simp only [State.total, occurrences_append, occurrences_cons, occurrences_nil]
    omega

/-- The caller's own request is the newest. -/
theorem oldestRequest_eq (queue : List Pcb) (pcb head : Pcb) (rest : List Pcb)
    (h : queue ++ [pcb] = head :: rest) : oldestRequest queue pcb = head := by
  cases queue with
  | nil => exact (List.cons.inj h).1
  | cons first _ => exact (List.cons.inj h).1

/-- `mlist_remove` finds a block in `pcb_block` by its number. -/
theorem any_pcbEquals_block (k : State) (pcb head : Pcb) :
    ((k.pcbBlock ++ [pcb]).any fun pcbBlock => pcbEquals head pcbBlock)
      = k.blockedWith pcb head.idProcess := by
  unfold State.blockedWith pcbEquals
  simp only [Bool.beq_comm]

/-- A signal adds its caller, takes the process it makes ready out of `pcb_block`, and the
    blocks behind it that have the number it reads as by then, and adds the number it reads as
    in the end. -/
theorem total_semSignal (k u : State) (r : Residue) (pcb : Pcb) (i : Nat) (queue : List Pcb)
    (hqueue : k.solicitudesSem[i]? = some queue) (h : k.semSignal r pcb i = some u)
    (hblocked : k.blockedWith pcb (oldestRequest queue pcb).idProcess) (pid : Int) :
    u.total pid + (if (oldestRequest queue pcb).idProcess = pid then 1 else 0)
        + (if (readBehind r queue (oldestRequest queue pcb)).idProcess = pid
          then occurrences pid (blocksAfter (oldestRequest queue pcb) (k.pcbBlock ++ [pcb])) else 0)
      = k.total pid + (if pcb.idProcess = pid then 1 else 0)
        + if (r.freed (oldestRequest queue pcb)).idProcess = pid then 1 else 0 := by
  rcases semSignal_cases k u r pcb i h with ⟨value, queue', head, rest, -, hqueue', hsplit, rfl⟩
  obtain rfl : queue = queue' := Option.some.inj (hqueue.symm.trans hqueue')
  rw [oldestRequest_eq queue pcb head rest hsplit] at hblocked ⊢
  have hremoved := occurrences_removeReady head (readBehind r queue head) (k.pcbBlock ++ [pcb]) pid
    ((occurrences_pos _ _).mpr hblocked)
  rw [any_pcbEquals_block, hblocked]
  simp only [if_true, State.total, occurrences_append, occurrences_cons, occurrences_nil]
    at hremoved ⊢
  omega

/-- A signal whose oldest request is of a process that is not blocked adds its caller and that
    process. -/
theorem total_semSignal_ajeno (k u : State) (r : Residue) (pcb : Pcb) (i : Nat)
    (queue : List Pcb) (hqueue : k.solicitudesSem[i]? = some queue)
    (h : k.semSignal r pcb i = some u)
    (hblocked : ¬ k.blockedWith pcb (oldestRequest queue pcb).idProcess) (pid : Int) :
    u.total pid = k.total pid + (if pcb.idProcess = pid then 1 else 0)
      + if (oldestRequest queue pcb).idProcess = pid then 1 else 0 := by
  rcases semSignal_cases k u r pcb i h with ⟨value, queue', head, rest, -, hqueue', hsplit, rfl⟩
  obtain rfl : queue = queue' := Option.some.inj (hqueue.symm.trans hqueue')
  rw [oldestRequest_eq queue pcb head rest hsplit] at hblocked ⊢
  have hnone : occurrences head.idProcess (k.pcbBlock ++ [pcb]) = 0 := by
    by_contra hc
    exact hblocked ((occurrences_pos _ _).mp (Nat.pos_of_ne_zero hc))
  rw [any_pcbEquals_block, if_neg hblocked, removeReady_of_none head _ _ hnone]
  simp only [State.total, occurrences_append, occurrences_cons, occurrences_nil]
  omega

/-- Counts that are one stay so when one number is taken out and another is put in, with
    those there are of the latter taken out first, exactly if the two are the same, or the
    one out does not count and the one in does not either or was there. -/
theorem exchange_iff (created : Int → Prop) (before after : Int → Nat) (out into : Int)
    (extra : Nat) (hbefore : ∀ pid, created pid → before pid = 1)
    (hsame : into = out → created out → extra = 0)
    (hextra : created into → extra ≤ 1)
    (hafter : ∀ pid, created pid →
      after pid + (if out = pid then 1 else 0) + (if into = pid then extra else 0)
        = before pid + if into = pid then 1 else 0) :
    (∀ pid, created pid → after pid = 1)
      ↔ into = out ∨ (¬ created out ∧ (created into → 0 < extra)) := by
  constructor
  · intro hone
    by_cases heq : into = out
    · exact Or.inl heq
    refine Or.inr ⟨fun hout => ?_, fun hcreated => ?_⟩
    · -- What was taken out is missing.
      have hmiss := hafter out hout
      rw [if_pos rfl, if_neg heq, if_neg heq, hone out hout, hbefore out hout] at hmiss
      omega
    · -- What was put in is there twice, unless it was taken out before.
      have hinto := hafter into hcreated
      rw [if_neg (Ne.symm heq), if_pos rfl, if_pos rfl, hone into hcreated,
        hbefore into hcreated] at hinto
      omega
  · rintro (heq | ⟨hout, hin⟩) pid hpid
    · have hpid' := hafter pid hpid
      rw [heq, hbefore pid hpid] at hpid'
      by_cases hself : out = pid
      · have hnone := hsame heq (hself ▸ hpid)
        rw [if_pos hself, if_pos hself] at hpid'
        omega
      · rw [if_neg hself, if_neg hself] at hpid'
        exact hpid'
    · have hpid' := hafter pid hpid
      have hne : out ≠ pid := fun heq => hout (heq ▸ hpid)
      rw [if_neg hne, hbefore pid hpid] at hpid'
      by_cases hself : into = pid
      · have hpos := hin (hself ▸ hpid)
        have hle := hextra (hself ▸ hpid)
        rw [if_pos hself, if_pos hself] at hpid'
        omega
      · rw [if_neg hself, if_neg hself] at hpid'
        exact hpid'

/-- A process that was in one place is there again once the caller of a system
    call is put anywhere. -/
theorem total_leaveExec_add (k : State) (r : Residue) (packet : Packet)
    (hexpects : k.expects r packet) (pid : Int) (hone : k.total pid = 1) :
    (k.leaveExec (syscallPid r packet)).total pid
      + (if syscallPid r packet = pid then 1 else 0) = 1 := by
  have hleave := total_leaveExec k (syscallPid r packet) pid
  by_cases hself : syscallPid r packet = pid
  · have hexec := exec_of_expects k r packet hexpects
    have hle : occurrences pid k.pcbExec ≤ k.total pid := by
      unfold State.total
      omega
    rw [hself] at hexec
    rw [if_pos hself] at hleave ⊢
    omega
  · rw [if_neg hself] at hleave ⊢
    omega

/-- A signal whose oldest request is of a blocked process exchanges the number of that process
    for the one its block is read with. -/
theorem signal_exchanges (k u : State) (r : Residue) (queue : List Pcb) (pcb head : Pcb)
    (before : Int → Nat) (hone : ∀ pid, k.Created pid → before pid = 1)
    (hle : ∀ pid, k.Created pid → occurrences pid (k.pcbBlock ++ [pcb]) ≤ 1)
    (hpos : 0 < occurrences head.idProcess (k.pcbBlock ++ [pcb]))
    (hfound : ∀ pid, u.total pid + (if head.idProcess = pid then 1 else 0)
        + (if (readBehind r queue head).idProcess = pid
          then occurrences pid (blocksAfter head (k.pcbBlock ++ [pcb])) else 0)
      = before pid + if (r.freed head).idProcess = pid then 1 else 0) :
    (∀ pid, k.Created pid → u.total pid = 1) ↔ (r.freed head).idProcess = head.idProcess
      ∨ (¬ k.Created head.idProcess ∧ (k.Created (r.freed head).idProcess → queue ≠ [] ∧
          0 < occurrences (r.freed head).idProcess (blocksAfter head (k.pcbBlock ++ [pcb])))) := by
  -- Behind the only block of a process there is none of it.
  have honce : k.Created head.idProcess →
      occurrences head.idProcess (blocksAfter head (k.pcbBlock ++ [pcb])) = 0 := by
    intro hhead
    have hbehind := occurrences_blocksAfter head (k.pcbBlock ++ [pcb]) hpos
    have hcount := hle head.idProcess hhead
    omega
  cases queue with
  | nil =>
      -- What is removed behind is of the process itself, and there is nothing.
      have hexchange := exchange_iff k.Created before u.total head.idProcess
        (r.freed head).idProcess 0 hone (fun _ _ => rfl) (fun _ => Nat.zero_le 1)
        fun pid hpid => ?_
      · simpa only [ne_eq, not_true_eq_false, false_and, lt_irrefl] using hexchange
      · have hafter := hfound pid
        simp only [readBehind, List.isEmpty_nil, if_true] at hafter
        rw [ite_self]
        by_cases hself : head.idProcess = pid
        · rw [hself] at honce hafter
          rw [honce hpid, ite_self] at hafter
          rw [hself]
          exact hafter
        · rw [if_neg hself, if_neg hself] at hafter
          rw [if_neg hself]
          exact hafter
  | cons first rest =>
      -- What is removed behind has the number that is put in.
      have hexchange := exchange_iff k.Created before u.total head.idProcess
        (r.freed head).idProcess
        (occurrences (r.freed head).idProcess (blocksAfter head (k.pcbBlock ++ [pcb]))) hone
        (fun hsame hhead => ?_) (fun hin => ?_) fun pid _ => ?_
      · simpa only [ne_eq, reduceCtorEq, not_false_eq_true, true_and] using hexchange
      · rw [hsame]
        exact honce hhead
      · exact le_trans ((blocksAfter_sublist head (k.pcbBlock ++ [pcb])).countP_le) (hle _ hin)
      · have hafter := hfound pid
        simp only [readBehind, List.isEmpty_cons, Bool.false_eq_true, if_false] at hafter
        refine Eq.trans ?_ hafter
        by_cases hself : (r.freed head).idProcess = pid
        · rw [if_pos hself, if_pos hself, hself]
        · rw [if_neg hself, if_neg hself]

/-- A signal keeps the partition exactly under `SignalKeeps`. -/
theorem partitioned_semSignal_iff (k u : State) (r : Residue) (packet : Packet) (i : Nat)
    (queue : List Pcb) (hk : k.Partitioned) (hexpects : k.expects r packet)
    (hqueue : k.solicitudesSem[i]? = some queue)
    (h : (k.leaveExec (syscallPid r packet)).semSignal r (syscallPcb r packet) i = some u) :
    u.Partitioned ↔
      SignalKeeps k r queue (syscallPcb r packet)
        (oldestRequest queue (syscallPcb r packet)) := by
  have hcreated : ∀ pid, u.Created pid ↔ k.Created pid := by
    rcases semSignal_cases _ u r _ i h with ⟨_, _, _, _, -, -, -, rfl⟩
    exact fun pid => Iff.rfl
  have hfound := total_semSignal (k.leaveExec (syscallPid r packet)) u r _ i queue hqueue h
  have hajeno := total_semSignal_ajeno (k.leaveExec (syscallPid r packet)) u r _ i queue hqueue h
  rw [partitioned_iff] at hk ⊢
  simp only [hcreated]
  have hone : ∀ pid, k.Created pid → (k.leaveExec (syscallPid r packet)).total pid
      + (if (syscallPcb r packet).idProcess = pid then 1 else 0) = 1 :=
    fun pid hpid => total_leaveExec_add k r packet hexpects pid (hk pid hpid)
  generalize syscallPcb r packet = pcb at hfound hajeno hone ⊢
  generalize oldestRequest queue pcb = head at hfound hajeno ⊢
  -- A process is in `pcb_block` once at most.
  have hle : ∀ pid, k.Created pid → occurrences pid (k.pcbBlock ++ [pcb]) ≤ 1 := by
    intro pid hpid
    have hsum := hone pid hpid
    simp only [State.total, State.leaveExec] at hsum
    simp only [occurrences_append, occurrences_cons, occurrences_nil]
    omega
  unfold SignalKeeps
  by_cases hblocked : k.blockedWith pcb head.idProcess = true
  · have hpos := (occurrences_pos _ _).mpr hblocked
    rw [if_pos hblocked]
    exact signal_exchanges k u r queue pcb head _ hone hle hpos (hfound hblocked)
  · -- Nothing leaves `pcb_block`, and the process of the request is added.
    rw [if_neg hblocked]
    have hafter := hajeno hblocked
    constructor
    · intro hall hhead
      have htwice := hafter head.idProcess
      rw [if_pos rfl, hall head.idProcess hhead, hone head.idProcess hhead] at htwice
      omega
    · intro hhead pid hpid
      have hne : head.idProcess ≠ pid := fun heq => hhead (heq ▸ hpid)
      rw [hafter pid, if_neg hne, hone pid hpid]

/-- A new program's number is the one after those given. -/
theorem partitioned_newProgram_iff (parser : Parser) (config : Config) (k u : State) (r : Residue)
    (program : Packet) (console : Int) (hgen : 0 ≤ k.generatorPid) (hk : k.Partitioned)
    (h : gestionDatosNewPcb parser config k r program console = some u) :
    u.Partitioned ↔ k.total (k.generatorPid + 1) = 0 := by
  rcases gestionDatosNewPcb_cases parser config k u r program console h with
    ⟨pcb, consolas, w, hpid, -, -, rfl⟩
  rw [partitioned_iff] at hk ⊢
  -- One more process of the new number, and as many as before of the others.
  have htotal : ∀ pid, State.total { k with
      generatorPid := k.generatorPid + 1
      codesMs := k.codesMs ++ [program.payload]
      consolasConectadas := consolas
      pcbNew := k.pcbNew ++ [pcb]
      wire := w } pid = k.total pid + if k.generatorPid + 1 = pid then 1 else 0 := by
    intro pid
    simp only [State.total, occurrences_append, occurrences_cons, occurrences_nil, hpid]
    omega
  constructor
  · intro hu
    have hnew := hu (k.generatorPid + 1) ⟨by omega, le_refl _⟩
    rw [htotal, if_pos rfl] at hnew
    omega
  · intro hfree pid hcreated
    rw [htotal]
    by_cases hnew : k.generatorPid + 1 = pid
    · rw [if_pos hnew, ← hnew, hfree]
    · rw [if_neg hnew, Nat.add_zero]
      have hle : pid ≤ k.generatorPid + 1 := hcreated.2
      exact hk pid ⟨hcreated.1, by omega⟩

/-- A message about a shared variable loses its process. -/
theorem partitioned_sharedVar_iff (k u : State) (r : Residue) (packet : Packet)
    (hk : k.Partitioned) (hexpects : k.expects r packet)
    (hgen : u.generatorPid = k.generatorPid)
    (htotal : ∀ pid, u.total pid = (k.leaveExec (syscallPid r packet)).total pid) :
    u.Partitioned ↔ ¬ k.Created (syscallPid r packet) := by
  rw [partitioned_iff] at hk ⊢
  have hcreated : ∀ pid, u.Created pid ↔ k.Created pid := by
    unfold State.Created
    simp only [hgen, implies_true]
  simp only [hcreated, htotal]
  constructor
  · intro hu hpid
    have hback := total_leaveExec_add k r packet hexpects _ (hk _ hpid)
    rw [if_pos rfl, hu _ hpid] at hback
    omega
  · intro hpid pid hcreated
    have hback := total_leaveExec_add k r packet hexpects _ (hk _ hcreated)
    have hne : syscallPid r packet ≠ pid := fun heq => hpid (heq ▸ hcreated)
    rw [if_neg hne] at hback
    exact hback

/-- A step from a state in which every process is in one queue leads to another
    such state exactly when `StepKeeps`. -/
theorem partitioned_step_iff (parser : Parser) (config : Config) (k u : State)
    (e : Residue × Event) (hgen : 0 ≤ k.generatorPid) (hk : k.Partitioned)
    (h : k.step parser config e = some u) : u.Partitioned ↔ StepKeeps config k e := by
  rcases e with ⟨r, event⟩
  have hkeep : Keeps k u → (u.Partitioned ↔ True) := fun hkeeps =>
    iff_true_intro (partitioned_of_keeps k u hkeeps hk)
  cases event with
  | connectConsole fd =>
      obtain rfl := step_connectConsole parser config k u r fd h
      exact hkeep (keeps_of_total_eq _ _ rfl fun _ => rfl)
  | connectCpu fd =>
      obtain rfl := step_connectCpu parser config k u r fd h
      exact hkeep (keeps_of_total_eq _ _ rfl fun _ => rfl)
  | newProgram console program =>
      exact partitioned_newProgram_iff parser config k u r program console hgen hk h
  | planificacion res => exact hkeep (keeps_planificacion config k u r res h)
  | destroyConsole client =>
      obtain rfl := step_destroyConsole parser config k u r client h
      exact hkeep (keeps_destroyConsole k r client)
  | kill pid =>
      rcases step_kill parser config k u r pid h with ⟨-, rfl⟩
      exact hkeep (keeps_terminalKill k pid)
  | syscall cpu packet siguientes =>
      rcases step_syscall_cases parser config k u r cpu packet siguientes h with
        ⟨hexpects, ⟨hop, rfl⟩ | ⟨hop, packetSem, rfl, hsem⟩ | ⟨hop, values, w, rfl⟩⟩
      -- The process ends.
      · have hok : StepKeeps config k (r, .syscall cpu packet siguientes) ↔ True := by
          simp [StepKeeps, hop]
        rw [hok]
        apply hkeep
        refine ⟨generatorPid_endProgram _ r _ _, fun pid hone => ?_⟩
        have hback := total_leaveExec_add k r packet hexpects pid hone
        change State.total (State.endProgram _ _ _ _) pid = 1
        rw [total_endProgram]
        by_cases hself : (syscallPcb r packet).idProcess = pid
        · rw [if_pos hself]
        · rw [if_neg hself]
          rw [if_neg (show ¬ syscallPid r packet = pid from hself)] at hback
          exact hback
      · rcases hsem with ⟨hwait, k₁, hsem, rfl⟩ | ⟨hwait, k₁, hsem, rfl⟩
        -- A wait puts its caller back in one place.
        · have hok : StepKeeps config k (r, .syscall cpu packet [packetSem]) ↔ True := by
            simp [StepKeeps, hop, hwait]
          rw [hok]
          apply hkeep
          refine ⟨?_, fun pid hone => ?_⟩
          · rcases semWait_cases _ _ _ _ hsem with ⟨_, _, -, -, ⟨-, rfl⟩ | ⟨-, rfl⟩⟩
            · rfl
            · rfl
          · have hback := total_leaveExec_add k r packet hexpects pid hone
            change k₁.total pid = 1
            rw [total_semWait _ _ _ _ hsem pid]
            exact hback
        · rcases semSignal_cases _ _ _ _ _ hsem with ⟨_, queue, _, _, -, hqueue, -, -⟩
          have hok : StepKeeps config k (r, .syscall cpu packet [packetSem])
              ↔ SignalKeeps k r queue (syscallPcb r packet)
                  (oldestRequest queue (syscallPcb r packet)) := by
            have hqueue' : k.solicitudesSem[semaphoreIndex config r packetSem]? = some queue :=
              hqueue
            simp [StepKeeps, hop, hwait, hqueue']
          rw [hok]
          exact partitioned_semSignal_iff k k₁ r packet _ queue hk hexpects hqueue hsem
      -- The message is about a shared variable.
      · have hok : StepKeeps config k (r, .syscall cpu packet siguientes)
            ↔ ¬ k.Created (syscallPid r packet) := by
          simp [StepKeeps, hop]
        rw [hok]
        exact partitioned_sharedVar_iff k _ r packet hk hexpects rfl fun _ => rfl

/-- Numbers are only ever added. -/
theorem generatorPid_le_step (parser : Parser) (config : Config) (k u : State)
    (e : Residue × Event) (h : k.step parser config e = some u) :
    k.generatorPid ≤ u.generatorPid := by
  rcases e with ⟨r, event⟩
  cases event with
  | connectConsole fd =>
      rw [step_connectConsole parser config k u r fd h]
  | connectCpu fd =>
      rw [step_connectCpu parser config k u r fd h]
      rfl
  -- The only event that counts a new process.
  | newProgram console program =>
      rcases gestionDatosNewPcb_cases parser config k u r program console h with
        ⟨_, _, _, -, -, -, rfl⟩
      exact Int.le_add_one (le_refl _)
  | planificacion res => exact le_of_eq (keeps_planificacion config k u r res h).1.symm
  | destroyConsole client =>
      obtain rfl := step_destroyConsole parser config k u r client h
      exact le_of_eq (keeps_destroyConsole k r client).1.symm
  | kill pid =>
      rcases step_kill parser config k u r pid h with ⟨-, rfl⟩
      rfl
  | syscall cpu packet siguientes =>
      have hsyscall := (step_syscall parser config k u r cpu packet siguientes h).2
      exact le_of_eq
        (gestionSyscall_numbers config k u r cpu packet siguientes [] hsyscall).1.symm

theorem partitioned_init (multipgLevel memfd : Int) (semInit : List Int) (shared : Nat) :
    (State.init multipgLevel memfd semInit shared).Partitioned := by
  intro pid hcreated
  have hle : pid ≤ 0 := hcreated.2
  exact absurd hcreated.1 (by omega)

/-- In a run from start-up every process is in exactly one of the five queues, and
    once there, in all the states the run goes through, if and only if all its steps
    are among those that keep the partition. -/
theorem partitioned_throughout_iff (parser : Parser) (config : Config) (multipgLevel memfd : Int)
    (semInit : List Int) (shared : Nat) (t : State) (es : List (Residue × Event))
    (hrun : run (State.step parser config) (State.init multipgLevel memfd semInit shared) es
      = some t) :
    Throughout (State.step parser config) State.Partitioned
        (State.init multipgLevel memfd semInit shared) es
      ↔ Along (State.step parser config) (StepKeeps config)
        (State.init multipgLevel memfd semInit shared) es :=
  throughout_iff_along (State.step parser config) (StepKeeps config) (fun k => 0 ≤ k.generatorPid)
    State.Partitioned
    (fun k e u hgen _ _ h => le_trans hgen (generatorPid_le_step parser config k u e h))
    (fun k e u hgen hk h => partitioned_step_iff parser config k u e hgen hk h)
    _ t es (le_refl 0) (partitioned_init multipgLevel memfd semInit shared) hrun

/-- A parser for which every program has one instruction. -/
def sampleParser : Parser :=
  { lineSize := 64
    metadataDesdeLiteral := fun _ =>
      { instruccionInicio := 0
        instruccionesSize := 1
        instruccionesSerializado := [{ start := 0, offset := 4 }]
        etiquetasSize := 0
        etiquetas := fun _ => 0
        cantidadDeFunciones := 0
        cantidadDeEtiquetas := 0 }
    metadataBuscarEtiqueta := fun _ _ _ => -1
    analizadorLinea := fun _ => .fin }

/-- A semaphore `s`, and a shared variable `g`. -/
def sampleConfig : Config :=
  { quantum := 0, stackSize := 1, pageSize := 4, semIds := [[115]], sharedVars := [[103]],
    pageSizePos := by decide }

def sampleResidue : Residue := { payload := fun _ _ => 0, buffer := fun _ => 0, freed := id }

def sampleCpu : Client := { clientID := 6, process := .CPU, pids := [] }

/-- What the CPU has of the first process. -/
def samplePcb : Pcb :=
  { idProcess := 1, PC := 0, quantum := 0, status := 0, pagesCode := 1,
    indexCode := [{ start := 0, offset := 4 }], instructions := 1, indexTag := [], tags := 0,
    stack := [], stackPointer := 0, exitCode := 0 }

/-- A control block as a message of a CPU. -/
def pcbMessage (opcode : Opcode) (pcb : Pcb) : Packet :=
  let s := serialPackPcb pcb fun _ => 0
  protocolPacket (protocolHeader .CPU opcode) s.1 s.2

set_option maxRecDepth 2000

/-- A console and a CPU connect, a program arrives and is dispatched. -/
def sampleArrival : List (Residue × Event) :=
  [(sampleResidue, .connectConsole 5), (sampleResidue, .connectCpu 6),
    (sampleResidue, .newProgram 5
      { header := protocolHeader .CONSOLE .OP_NEW_PROGRAM, payload := [97, 61, 49, 10] }),
    (sampleResidue, .planificacion 1)]

/-- The program asks for the value of `g`. -/
def sampleLoss : List (Residue × Event) :=
  sampleArrival ++ [(sampleResidue, .syscall sampleCpu (pcbMessage .OP_CPU_SHARED_VAR samplePcb)
    [{ header := protocolHeader .CPU .OP_CPU_SHARED_VAR, payload := [118, 103] }])]

theorem sampleLoss_taken :
    (run (State.step sampleParser sampleConfig) (State.init 3 4 [1] 1) sampleLoss).isSome := by
  decide

theorem sampleLoss_partitioned_iff :
    Throughout (State.step sampleParser sampleConfig) State.Partitioned (State.init 3 4 [1] 1)
        sampleLoss
      ↔ Along (State.step sampleParser sampleConfig) (StepKeeps sampleConfig)
        (State.init 3 4 [1] 1) sampleLoss :=
  partitioned_throughout_iff sampleParser sampleConfig 3 4 [1] 1 _ sampleLoss
    (Option.some_get sampleLoss_taken).symm

/-- The process that asks for the value of a shared variable is in no queue
    afterwards. -/
theorem shared_variable_loses_process :
    ¬ ∀ (parser : Parser) (config : Config) (multipgLevel memfd : Int) (semInit : List Int)
        (shared : Nat) (t : State) (es : List (Residue × Event)),
      run (State.step parser config) (State.init multipgLevel memfd semInit shared) es = some t →
      Throughout (State.step parser config) State.Partitioned
        (State.init multipgLevel memfd semInit shared) es := by
  intro hall
  have hrun := (Option.some_get sampleLoss_taken).symm
  have hend := throughout_last _ _ _ _ _ (hall _ _ _ _ _ _ _ _ hrun) hrun
  rw [partitioned_iff] at hend
  have hone := hend 1 ⟨le_refl 1, by decide⟩
  revert hone
  decide

end Kernel

end Esther
