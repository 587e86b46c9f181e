import Esther.Lib.Custody
import Esther.Theory.Cpu
import Esther.Theory.Dispatch

/-!
# Ownership of a Process

Who has a process: the kernel in one of its queues, or a CPU.

The kernel lends a process when it puts it in `pcb_exec` and sends its control block to
a CPU, and it takes the process off `pcb_exec` when it reads the message with which the
CPU hands the control block back. Neither side sees what the other has already done.
`State.holding` is what a CPU has been lent and not given back, in whatever stage that
is: a control block it has not read, or the process it executes. A process is
`returned` from the moment its hand-back is sent.

`Owned` is the invariant that ties the two together, an instance of `Exclusive`. It
holds as long as processes only come back by ending, and this module proves it for what
the kernel does.

## Main definitions

* `pending`, `running`, `State.holding`: What a CPU has.
* `State.returned`: What has been handed back.
* `Owned`: A process a CPU has is in `pcb_exec`, and no other CPU has it.

## Theorems

* `owned_quiet`: What the kernel does without dispatching anybody.
* `owned_despachar`: Ready processes are handed to CPUs.
* `owned_programEnd`: The kernel reads that a process has ended.
-/

namespace Esther

namespace System

open Cells Serial Custody

/-- The processes a CPU is told to execute by packets it has not read yet. -/
def pending (inbox : List Packet) : List Int :=
  (inbox.filter fun packet => packet.header.opcode == .OP_KE_SEND_PCB).map packetPid

/-- The process a CPU executes and has not handed back. -/
def running (cpu : Cpu.State) : List Int :=
  match cpu.control with
  | .espera => []
  | .bucle _ => [cpu.pcbActual.idProcess]
  | _ => if cpu.finPrograma then [] else [cpu.pcbActual.idProcess]

/-- The processes a CPU has been lent and has not given back. -/
def State.holding (s : State) (fd : Int) : List Int :=
  pending (s.kernel.wire fd) ++ match s.cpus fd with
    | some cpu => running cpu
    | none => []

/-- The CPU finishes the line in which it has ended the process. -/
def Concludes (cpu : Cpu.State) (pid : Int) : Prop :=
  (∃ i linea, cpu.control = .linea i linea) ∧ cpu.finPrograma = true
    ∧ cpu.pcbActual.idProcess = pid

/-- The process has been handed back: the message is on its way, or the line that sent
    it goes on. -/
def State.returned (s : State) (pid : Int) : Prop :=
  (∃ fd, ∃ packet ∈ s.outbox fd, packetPid packet = pid)
    ∨ ∃ fd cpu, s.cpus fd = some cpu ∧ Concludes cpu pid

/-- The process is in `pcb_exec`, and in `pcb_exit`. -/
def State.lent (s : State) (pid : Int) : Prop := 0 < Kernel.occurrences pid s.kernel.pcbExec

def State.ended (s : State) (pid : Int) : Prop := 0 < Kernel.occurrences pid s.kernel.pcbExit

/-- Every process is in one queue at most and has a number that fits a field; what a CPU
    has is in `pcb_exec` and with no other CPU; and CPUs send nothing but the end of a
    process. -/
structure Owned (s : State) : Prop where
  genNonneg : 0 ≤ s.kernel.generatorPid
  genShort : s.kernel.generatorPid < 2 ^ 15
  once : ∀ pid, s.kernel.total pid ≤ 1
  created : ∀ pid, 0 < s.kernel.total pid → s.kernel.Created pid
  custody : Exclusive s.lent s.ended s.holding s.returned
  wire : ∀ fd, ∀ packet ∈ s.kernel.wire fd, packet.header.opcode ≠ .OP_KE_SEND_QUANTUM
    ∧ (packet.header.opcode = .OP_KE_SEND_PCB → 2 ≤ packet.payload.length)
  outbox : ∀ fd, ∀ packet ∈ s.outbox fd, packet.header.opcode = .OP_CPU_PROGRAM_END
    ∧ 2 ≤ packet.payload.length
  control : ∀ fd cpu, s.cpus fd = some cpu → ∀ i sigue, cpu.control ≠ .compartida i sigue

@[simp] theorem pending_nil : pending [] = [] := rfl

theorem pending_append (inbox inbox' : List Packet) :
    pending (inbox ++ inbox') = pending inbox ++ pending inbox' := by
  unfold pending
  rw [List.filter_append, List.map_append]

theorem pending_pcb (packet : Packet) (inbox : List Packet)
    (h : packet.header.opcode = .OP_KE_SEND_PCB) :
    pending (packet :: inbox) = packetPid packet :: pending inbox := by
  unfold pending
  rw [List.filter_cons_of_pos (by simp [h]), List.map_cons]

theorem pending_other (packet : Packet) (inbox : List Packet)
    (h : packet.header.opcode ≠ .OP_KE_SEND_PCB) : pending (packet :: inbox) = pending inbox := by
  unfold pending
  rw [List.filter_cons_of_neg (by simp [h])]

/-- Idle packets lend nothing. -/
theorem pending_idle (packets : List Packet) (h : ∀ packet ∈ packets, Kernel.Idle packet) :
    pending packets = [] := by
  induction packets with
  | nil => rfl
  | cons packet packets ih =>
      rw [pending_other packet packets (h packet List.mem_cons_self).1]
      exact ih fun p hp => h p (List.mem_cons_of_mem packet hp)

/-- What is read from the front of the wire is lent no longer by what is left on it. -/
theorem pending_subperm (packets rest : List Packet) :
    (pending rest).Subperm (pending (packets ++ rest)) := by
  rw [pending_append]
  exact (List.sublist_append_right _ _).subperm

/-- Packets taken off the front of one connection leave nothing new on any. -/
theorem mem_update_suffix (wire : Int → List Packet) (fd : Int) (packets rest : List Packet)
    (h : wire fd = packets ++ rest) (other : Int) (packet : Packet)
    (hmem : packet ∈ Function.update wire fd rest other) : packet ∈ wire other := by
  by_cases hfd : other = fd
  · subst hfd
    rw [Function.update_self] at hmem
    rw [h]
    exact List.mem_append_right packets hmem
  · rw [Function.update_of_ne hfd] at hmem
    exact hmem

/-- A process in one of the queues a CPU can know of has a number that fits a field. -/
theorem short_of_registered (s : State) (h : Owned s) (pid : Int) (hpid : s.lent pid ∨ s.ended pid) :
    Short pid := by
  have htotal : 0 < s.kernel.total pid := by
    unfold Kernel.State.total
    rcases hpid with hlent | hended
    · unfold State.lent at hlent
      omega
    · unfold State.ended at hended
      omega
  rcases h.created pid htotal with ⟨hlo, hhi⟩
  have hgen := h.genShort
  unfold Short
  omega

/-- A handler that dispatches nobody. -/
theorem owned_quiet (s : State) (u : Kernel.State) (h : Owned s) (hquiet : Kernel.Quiet s.kernel u)
    (hlo : 0 ≤ u.generatorPid) (hhi : u.generatorPid < 2 ^ 15) (honce : ∀ pid, u.total pid ≤ 1)
    (hcreated : ∀ pid, 0 < u.total pid → u.Created pid) : Owned { s with kernel := u } where
  genNonneg := hlo
  genShort := hhi
  once := honce
  created := hcreated
  custody := by
    refine exclusive_subperm s.lent _ s.ended _ s.holding _ s.returned _ h.custody
      (fun pid hpid => ?_) hquiet.exit (fun fd => ?_) fun pid hpid => hpid
    · unfold State.lent at hpid ⊢
      rw [hquiet.exec pid]
      exact hpid
    · rcases hquiet.wire fd with ⟨packets, hwire, hidle⟩
      unfold State.holding
      simp only [hwire, pending_append, pending_idle packets hidle, List.append_nil]
      exact List.Subperm.refl _
  wire := Kernel.adds_forall s.kernel u _ hquiet.wire h.wire fun packet hidle =>
    ⟨hidle.2, fun hop => absurd hop hidle.1⟩
  outbox := h.outbox
  control := h.control

/-- The same, for a handler that creates nobody either. -/
theorem owned_of_total_eq (s : State) (u : Kernel.State) (h : Owned s)
    (hquiet : Kernel.Quiet s.kernel u) (hgen : u.generatorPid = s.kernel.generatorPid)
    (htotal : ∀ pid, u.total pid = s.kernel.total pid) : Owned { s with kernel := u } := by
  refine owned_quiet s u h hquiet (hgen ▸ h.genNonneg) (hgen ▸ h.genShort)
    (fun pid => htotal pid ▸ h.once pid) fun pid hpid => ?_
  have hold := h.created pid (htotal pid ▸ hpid)
  unfold Kernel.State.Created at hold ⊢
  rw [hgen]
  exact hold

/-- The next process gets a number no queue has. -/
theorem owned_newProgram (parser : Parser) (config : Kernel.Config) (s : State)
    (u : Kernel.State) (r : Kernel.Residue) (program : Packet) (console : Int) (h : Owned s)
    (hgen : s.kernel.generatorPid < 2 ^ 15 - 1)
    (hnew : Kernel.gestionDatosNewPcb parser config s.kernel r program console = some u) :
    Owned { s with kernel := u } := by
  have hquiet := Kernel.quiet_newProgram parser config s.kernel u r program console hnew
  rcases Kernel.gestionDatosNewPcb_cases parser config s.kernel u r program console hnew with
    ⟨pcb, consolas, w, hpid, -, -, rfl⟩
  have htotal : ∀ pid, Kernel.State.total { s.kernel with
      generatorPid := s.kernel.generatorPid + 1
      codesMs := s.kernel.codesMs ++ [program.payload]
      consolasConectadas := consolas
      pcbNew := s.kernel.pcbNew ++ [pcb]
      wire := w } pid
        = s.kernel.total pid + if s.kernel.generatorPid + 1 = pid then 1 else 0 := by
    intro pid
    simp only [Kernel.State.total, Kernel.occurrences_append, Kernel.occurrences_cons,
      Kernel.occurrences_nil, hpid]
    omega
  have hlo := h.genNonneg
  -- Nothing has the number yet, since it has not been given.
  have hfresh : s.kernel.total (s.kernel.generatorPid + 1) = 0 := by
    by_contra hpos
    have hle := (h.created _ (Nat.pos_of_ne_zero hpos)).2
    omega
  refine owned_quiet s _ h hquiet (by simp only; omega) (by simp only; omega)
    (fun pid => ?_) fun pid hpos => ?_
  · rw [htotal pid]
    by_cases heq : s.kernel.generatorPid + 1 = pid
    · rw [if_pos heq, ← heq, hfresh]
    · rw [if_neg heq]
      exact h.once pid
  · rw [htotal pid] at hpos
    unfold Kernel.State.Created
    by_cases heq : s.kernel.generatorPid + 1 = pid
    · simp only
      omega
    · rw [if_neg heq] at hpos
      rcases h.created pid hpos with ⟨hone, hle⟩
      simp only
      omega

/-- One ready process is handed to a CPU. -/
theorem owned_dispatch (s : State) (r : Kernel.Residue) (pcb : Pcb) (cpu : Kernel.Client)
    (packet : Packet) (ready : List Pcb) (conectadas executing : List Kernel.Client) (h : Owned s)
    (hready : s.kernel.pcbReady = pcb :: ready) (hsend : Kernel.sendPcb r pcb = some packet) :
    Owned { s with kernel := { s.kernel with
      pcbReady := ready
      cpuConectadas := conectadas
      wire := Function.update s.kernel.wire cpu.clientID
        (s.kernel.wire cpu.clientID ++ [packet])
      pcbExec := s.kernel.pcbExec ++ [pcb]
      cpuExecuting := executing } } := by
  have hsent := sendPcb_carries r pcb packet hsend
  have hlen := carries_length packet pcb hsent.2
  have hin : ∀ pid, Kernel.occurrences pid s.kernel.pcbReady
      = Kernel.occurrences pid ready + if pcb.idProcess = pid then 1 else 0 := by
    intro pid
    rw [hready, Kernel.occurrences_cons]
  have honce := h.once pcb.idProcess
  have hself := hin pcb.idProcess
  rw [if_pos rfl] at hself
  have htotal : 0 < s.kernel.total pcb.idProcess := by
    unfold Kernel.State.total
    omega
  have hpid : packetPid packet = pcb.idProcess := by
    rw [carries_pid packet pcb hsent.2]
    rcases h.created _ htotal with ⟨hlo, hhi⟩
    have hgen := h.genShort
    exact toShort_of_short _ ⟨by omega, by omega⟩
  unfold Kernel.State.total at honce
  refine ⟨h.genNonneg, h.genShort, fun pid => ?_, fun pid hpos => ?_, ?_, ?_, h.outbox, h.control⟩
  · have hone := h.once pid
    simp only [Kernel.State.total, hin pid] at hone
    simp only [Kernel.State.total, Kernel.occurrences_append, Kernel.occurrences_cons,
      Kernel.occurrences_nil]
    omega
  · apply h.created pid
    simp only [Kernel.State.total, Kernel.occurrences_append, Kernel.occurrences_cons,
      Kernel.occurrences_nil] at hpos
    simp only [Kernel.State.total, hin pid]
    omega
  · refine exclusive_grant s.lent _ s.ended s.holding _ s.returned pcb.idProcess cpu.clientID
      h.custody ?_ ?_ (fun pid => ?_) ?_ fun fd hfd => ?_
    · unfold State.lent
      omega
    · unfold State.ended
      omega
    · unfold State.lent
      simp only [Kernel.occurrences_append, Kernel.occurrences_cons, Kernel.occurrences_nil]
      by_cases heq : pcb.idProcess = pid
      · rw [if_pos heq]
        exact ⟨fun _ => Or.inr heq.symm, fun _ => by omega⟩
      · rw [if_neg heq]
        refine ⟨fun hpos => Or.inl (by omega), fun hor => ?_⟩
        rcases hor with hpos | heq'
        · omega
        · exact absurd heq'.symm heq
    -- The control block is on the wire, at its end.
    · unfold State.holding
      simp only [Function.update_self, pending_append, pending_pcb packet [] hsent.1, hpid,
        pending_nil, List.append_assoc, List.singleton_append]
      exact List.perm_middle
    · unfold State.holding
      simp only [Function.update_of_ne hfd]
  · intro fd p hp
    by_cases hfd : fd = cpu.clientID
    · subst hfd
      simp only [Function.update_self, List.mem_append, List.mem_singleton] at hp
      rcases hp with hold | rfl
      · exact h.wire _ p hold
      · exact ⟨by rw [hsent.1]; simp, fun _ => by omega⟩
    · simp only [Function.update_of_ne hfd] at hp
      exact h.wire fd p hp

/-- The second half of a scheduling round, one process after another. -/
theorem owned_despachar (s : State) (r : Kernel.Residue) (u : Kernel.State) (ready : List Pcb)
    (cpus : List Kernel.Client) (h : Owned s) (hready : s.kernel.pcbReady = ready)
    (hdesp : Kernel.despachar r s.kernel ready cpus = some u) : Owned { s with kernel := u } := by
  have hrule := Kernel.despachar_rule r
    (fun k ready _ => Owned { s with kernel := k } ∧ k.pcbReady = ready)
    (fun k pcb ready cpu cpus packet hsend hk =>
      ⟨owned_dispatch { s with kernel := k } r pcb cpu packet ready cpus (k.cpuExecuting ++ [cpu])
        hk.1 hk.2 hsend, rfl⟩)
    s.kernel u ready cpus ⟨h, hready⟩ hdesp
  rcases hrule with ⟨_, _, _, howned, _⟩
  exact howned

theorem owned_planificacion (config : Kernel.Config) (s : State) (u : Kernel.State)
    (r : Kernel.Residue) (res : Int) (h : Owned s)
    (hplan : Kernel.planificacion config s.kernel r res = some u) : Owned { s with kernel := u } := by
  rw [Kernel.planificacion] at hplan
  split at hplan
  · rename_i k₁ hadm
    have htotal := Kernel.total_admitir config s.kernel k₁ r res hadm
    have hfirst := owned_of_total_eq s k₁ h (Kernel.quiet_admitir config s.kernel k₁ r res hadm)
      htotal.1 htotal.2
    have hrest := owned_despachar _ r u _ _ hfirst rfl hplan
    exact hrest
  · exact absurd hplan (by simp)

/-- The kernel reads that a process has ended. -/
theorem owned_programEnd (config : Kernel.Config) (s : State) (u : Kernel.State)
    (r : Kernel.Residue) (cpu : Kernel.Client) (packet : Packet) (siguientes rest : List Packet)
    (h : Owned s) (houtbox : s.outbox cpu.clientID = packet :: siguientes)
    (hsys : Kernel.gestionSyscall config s.kernel r packet cpu siguientes = some (u, rest)) :
    Owned { s with
      kernel := u
      outbox := Function.update s.outbox cpu.clientID rest } := by
  have hmem : packet ∈ s.outbox cpu.clientID := by
    rw [houtbox]
    exact List.mem_cons_self
  rcases h.outbox cpu.clientID packet hmem with ⟨hop, hlen⟩
  have hreturned : s.returned (packetPid packet) :=
    Or.inl ⟨cpu.clientID, packet, hmem, rfl⟩
  have hregistered := h.custody.registered _ hreturned
  have hcreated : s.kernel.Created (packetPid packet) := by
    apply h.created
    unfold Kernel.State.total
    rcases hregistered with hlent | hended
    · unfold State.lent at hlent
      omega
    · unfold State.ended at hended
      omega
  have hpid : (Kernel.syscallPcb r packet).idProcess = packetPid packet :=
    serialUnpackPcb_pid packet _ hlen
  have hpid' : Kernel.syscallPid r packet = packetPid packet := hpid
  -- What is left of the queues.
  rw [Kernel.gestionSyscall_programEnd config s.kernel r cpu packet siguientes hop, hpid',
    Option.some.injEq, Prod.mk.injEq] at hsys
  rcases hsys with ⟨hu, rfl⟩
  have hu' := hu.symm
  have htotal : ∀ pid, u.total pid
      = if packetPid packet = pid then 1 else s.kernel.total pid := by
    intro pid
    rw [hu']
    change (Kernel.State.endProgram _ _ _ _).total pid = _
    rw [Kernel.total_endProgram, hpid]
    by_cases heq : packetPid packet = pid
    · rw [if_pos heq, if_pos heq]
    · have hleave := Kernel.total_leaveExec s.kernel (packetPid packet) pid
      rw [if_neg heq] at hleave
      rw [if_neg heq, if_neg heq]
      omega
  have hwire : Kernel.Adds s.kernel u := by
    rw [hu']
    exact Kernel.adds_endProgram (s.kernel.leaveExec (packetPid packet)) r _ _
  rcases Kernel.endProgram_eq (s.kernel.leaveExec (packetPid packet)) r
    (Kernel.syscallPcb r packet) Kernel.exitSuccessful with ⟨w, heq⟩
  have hgen : u.generatorPid = s.kernel.generatorPid := by
    rw [hu', heq]
    rfl
  have hexec : ∀ pid, Kernel.occurrences pid u.pcbExec
      = if packetPid packet = pid then 0 else Kernel.occurrences pid s.kernel.pcbExec := by
    intro pid
    rw [hu', heq]
    simp only [Kernel.State.restoreCPU, Kernel.State.leaveExec, Kernel.occurrences_removePid, hpid]
    by_cases hself : packetPid packet = pid
    · simp only [if_pos hself]
    · simp only [if_neg hself]
  have hexit : ∀ pid, Kernel.occurrences pid u.pcbExit
      = if packetPid packet = pid then 1 else Kernel.occurrences pid s.kernel.pcbExit := by
    intro pid
    rw [hu', heq]
    simp only [Kernel.State.restoreCPU, Kernel.State.leaveExec, Kernel.occurrences_append,
      Kernel.occurrences_removePid, Kernel.occurrences_cons, Kernel.occurrences_nil, hpid]
    by_cases hself : packetPid packet = pid
    · simp only [if_pos hself, Nat.zero_add]
    · simp only [if_neg hself, Nat.add_zero]
  have hholding : State.holding { s with
      kernel := u
      outbox := Function.update s.outbox cpu.clientID siguientes } = s.holding := by
    funext fd
    rcases hwire fd with ⟨packets, hfd, hidle⟩
    unfold State.holding
    simp only [hfd, pending_append, pending_idle packets hidle, List.append_nil]
  refine ⟨hgen ▸ h.genNonneg, hgen ▸ h.genShort, fun pid => ?_, fun pid hpos => ?_, ?_, ?_, ?_,
    h.control⟩
  · rw [htotal pid]
    split
    · exact le_refl 1
    · exact h.once pid
  · rw [htotal pid] at hpos
    have hold : s.kernel.Created pid := by
      split at hpos
      · rename_i hself
        exact hself ▸ hcreated
      · exact h.created pid hpos
    unfold Kernel.State.Created at hold ⊢
    rw [hgen]
    exact hold
  · rw [hholding]
    refine exclusive_retire s.lent _ s.ended _ s.holding s.returned _ (packetPid packet) h.custody
      hreturned (fun pid hne hpos => ?_) (fun pid hpos => ?_) ?_ fun pid hret => ?_
    · unfold State.lent at hpos ⊢
      rw [hexec pid, if_neg fun hc => hne hc.symm]
      exact hpos
    · unfold State.ended at hpos ⊢
      rw [hexit pid]
      split
      · exact Nat.one_pos
      · exact hpos
    · unfold State.ended
      rw [hexit, if_pos rfl]
      exact Nat.one_pos
    · rcases hret with ⟨fd, p, hp, hpp⟩ | hconc
      · exact Or.inl ⟨fd, p,
          mem_update_suffix s.outbox cpu.clientID [packet] siguientes houtbox fd p hp, hpp⟩
      · exact Or.inr hconc
  · exact Kernel.adds_forall s.kernel u _ hwire h.wire fun p hidle =>
      ⟨hidle.2, fun hpcb => absurd hpcb hidle.1⟩
  · intro fd p hp
    exact h.outbox fd p (mem_update_suffix s.outbox cpu.clientID [packet] siguientes houtbox fd p hp)

end System

end Esther
