import Esther.Lib.Transition
import Esther.Theory.Ownership

/-!
# Who Executes a Process

Whether a CPU that executes a process is the only one that has it, and has it with the
kernel's knowledge, in any interleaving of the kernel, the memory server and the CPUs.

It is as long as a process comes back to the kernel only by ending. `finalizar` sets
`finPrograma`, which ends the burst at the end of the line, and the end of the quantum
ends it at once. The calls of the kernel's functions end nothing: `wait`,
`signalAnsisop` and the two about shared variables send the control block and return to
the parser, `procesoBloqueado` is never set, and the CPU goes on with a process that
the kernel has already put somewhere else.

## Main definitions

* `State.fetching`: The process a CPU is about to fetch an instruction for.
* `FetchSafe`: That process is in `pcb_exec`, and no other CPU has it.
* `Undivided`: A step that does not hand a process over in the middle of its burst.

## Theorems

* `owned_step`: The invariant is kept by every step of the system.
* `fetch_safe_along`: Fetches are safe in a run of such steps.
* `blocked_process_fetches`: A run in which a blocked process is executed.
-/

namespace Esther

namespace System

open Cells Serial Custody Transition

/-- The process a CPU executes, from the start of the burst until it waits for the
    kernel again. -/
def State.executing (s : State) (fd : Int) : Option Int :=
  match s.cpus fd with
  | some cpu => match cpu.control with
    | .espera => none
    | _ => some cpu.pcbActual.idProcess
  | none => none

/-- The process a CPU is about to fetch an instruction for. -/
def State.fetching (s : State) (fd : Int) : Option Int :=
  match s.cpus fd with
  | some cpu => match cpu.control with
    | .bucle i =>
        if Cpu.seguirEjecutando cpu.pcbActual i then some cpu.pcbActual.idProcess else none
    | _ => none
  | none => none

/-- The next call of the parser on a CPU is one of the kernel's functions. -/
def State.calling (s : State) (fd : Int) : Bool :=
  match s.cpus fd with
  | some cpu => match cpu.control with
    | .linea _ linea => linea.callsKernel
    | _ => false
  | none => false

/-- A CPU has the process, or is about to be told to execute it. -/
def State.holds (s : State) (fd pid : Int) : Prop :=
  pid ∈ pending (s.kernel.wire fd) ∨ s.executing fd = some pid

/-- The kernel has the process in `pcb_exec`, or has not read the message with which the
    CPU hands it back. -/
def State.accountedFor (s : State) (fd pid : Int) : Prop :=
  (∃ pcb ∈ s.kernel.pcbExec, pcb.idProcess = pid)
    ∨ ∃ packet ∈ s.outbox fd, packetPid packet = pid ∧ ∃ pcb, CarriesPcb packet pcb

/-- A CPU that is about to fetch an instruction of a process has it alone, and the kernel
    accounts for it. -/
def FetchSafe (s : State) : Event → Prop
  | .cpu _ fd => ∀ pid, s.fetching fd = some pid →
      s.accountedFor fd pid ∧ ∀ other, other ≠ fd → ¬ s.holds other pid
  | _ => True

/-- The step does not hand a process to the kernel in the middle of its burst, and gives
    no process a number that a field does not carry. -/
def Undivided (s : State) : Event → Prop
  | .cpu _ fd => s.calling fd = false
  | .kernel _ (.newProgram _ _) => s.kernel.generatorPid < 2 ^ 15 - 1
  | _ => True

instance decidableUndivided (s : State) (e : Event) : Decidable (Undivided s e) := by
  unfold Undivided
  split <;> infer_instance

/-- The system after a step of a CPU. -/
def State.stepped (s : State) (fd : Int) (res : Cpu.Result) : State :=
  { s with
    memoria := res.memoria
    kernel := { s.kernel with wire := Function.update s.kernel.wire fd res.inbox }
    cpus := Function.update s.cpus fd (some res.state)
    outbox := Function.update s.outbox fd (s.outbox fd ++ res.sent) }

theorem stepCpu_cases (config : Config) (s u : State) (r : Cpu.Residue) (fd : Int)
    (h : stepCpu config s r fd = some u) :
    ∃ cpu res, s.cpus fd = some cpu
      ∧ Cpu.step config.cpu r cpu s.memoria (s.kernel.wire fd) = some res
      ∧ u = s.stepped fd res := by
  unfold stepCpu at h
  split at h
  · exact absurd h (by simp)
  · rename_i cpu hcpu
    split at h
    · exact absurd h (by simp)
    · rename_i res hres
      rw [Option.some.injEq] at h
      exact ⟨cpu, res, hcpu, hres, h.symm⟩

theorem holding_stepped (s : State) (fd : Int) (res : Cpu.Result) :
    (s.stepped fd res).holding fd = pending res.inbox ++ running res.state := by
  simp only [State.holding, State.stepped, Function.update_self]

theorem holding_stepped_of_ne (s : State) (fd other : Int) (res : Cpu.Result) (hne : other ≠ fd) :
    (s.stepped fd res).holding other = s.holding other := by
  simp only [State.holding, State.stepped, Function.update_of_ne hne]

/-- What a CPU has sent after a step of one was sent before, or by the step. -/
theorem outbox_stepped (s : State) (fd : Int) (res : Cpu.Result) (other : Int) (packet : Packet)
    (h : packet ∈ (s.stepped fd res).outbox other) :
    packet ∈ s.outbox other ∨ packet ∈ res.sent := by
  by_cases hfd : other = fd
  · subst hfd
    simp only [State.stepped, Function.update_self, List.mem_append] at h
    exact h
  · simp only [State.stepped, Function.update_of_ne hfd] at h
    exact Or.inl h

/-- A CPU is the one just put in its place, or was there before. -/
theorem cpus_update (cpus : Int → Option Cpu.State) (fd other : Int) (new cpu : Cpu.State)
    (h : Function.update cpus fd (some new) other = some cpu) :
    new = cpu ∨ cpus other = some cpu := by
  by_cases hfd : other = fd
  · rw [hfd, Function.update_self, Option.some.injEq] at h
    exact Or.inl h
  · rw [Function.update_of_ne hfd] at h
    exact Or.inr h

theorem cpus_update_none (cpus : Int → Option Cpu.State) (fd other : Int) (new : Cpu.State)
    (h : Function.update cpus fd (some new) other = none) : other ≠ fd ∧ cpus other = none := by
  by_cases hfd : other = fd
  · rw [hfd, Function.update_self] at h
    exact absurd h (Option.some_ne_none new)
  · rw [Function.update_of_ne hfd] at h
    exact ⟨hfd, h⟩

theorem cpus_stepped (s : State) (fd : Int) (res : Cpu.Result) (other : Int) (cpu : Cpu.State)
    (h : (s.stepped fd res).cpus other = some cpu) :
    res.state = cpu ∨ s.cpus other = some cpu :=
  cpus_update s.cpus fd other res.state cpu h

/-- What has been handed back after a step of a CPU was so before, or has been by the
    step. -/
theorem returned_stepped (s : State) (fd : Int) (res : Cpu.Result) (pid : Int)
    (h : (s.stepped fd res).returned pid) :
    s.returned pid ∨ (∃ packet ∈ res.sent, packetPid packet = pid) ∨ Concludes res.state pid := by
  rcases h with ⟨other, packet, hpacket, hpid⟩ | ⟨other, cpu, hcpu, hconc⟩
  · rcases outbox_stepped s fd res other packet hpacket with hold | hnew
    · exact Or.inl (Or.inl ⟨other, packet, hold, hpid⟩)
    · exact Or.inr (Or.inl ⟨packet, hnew, hpid⟩)
  · rcases cpus_stepped s fd res other cpu hcpu with rfl | hold
    · exact Or.inr (Or.inr hconc)
    · exact Or.inl (Or.inr ⟨other, cpu, hold, hconc⟩)

/-- A step of a CPU keeps the invariant if custody survives it. -/
theorem owned_stepped (s : State) (fd : Int) (res : Cpu.Result) (h : Owned s)
    (hinbox : ∃ packets, s.kernel.wire fd = packets ++ res.inbox)
    (hcontrol : ∀ i sigue, res.state.control ≠ .compartida i sigue)
    (hsent : ∀ packet ∈ res.sent, packet.header.opcode = .OP_CPU_PROGRAM_END
      ∧ 2 ≤ packet.payload.length)
    (hcustody : Exclusive s.lent s.ended (s.stepped fd res).holding (s.stepped fd res).returned) :
    Owned (s.stepped fd res) where
  genNonneg := h.genNonneg
  genShort := h.genShort
  once := h.once
  created := h.created
  custody := hcustody
  wire := by
    rcases hinbox with ⟨packets, hwire⟩
    intro other packet hpacket
    exact h.wire other packet (mem_update_suffix _ fd packets _ hwire other packet hpacket)
  outbox := by
    intro other packet hpacket
    rcases outbox_stepped s fd res other packet hpacket with hold | hnew
    · exact h.outbox other packet hold
    · exact hsent packet hnew
  control := by
    intro other cpu hcpu
    rcases cpus_stepped s fd res other cpu hcpu with rfl | hold
    · exact hcontrol
    · exact h.control other cpu hold

/-- The CPU has what it had, or less, and hands back nothing it had not handed back. -/
theorem custody_keep (s : State) (fd : Int) (res : Cpu.Result) (h : Owned s)
    (hholding : (pending res.inbox ++ running res.state).Subperm (s.holding fd))
    (hsent : ∀ packet ∈ res.sent, s.returned (packetPid packet))
    (hconc : ∀ pid, Concludes res.state pid → s.returned pid) :
    Exclusive s.lent s.ended (s.stepped fd res).holding (s.stepped fd res).returned := by
  refine exclusive_subperm s.lent s.lent s.ended s.ended s.holding _ s.returned _ h.custody
    (fun _ hp => hp) (fun _ hp => hp) (fun other => ?_) fun pid hpid => ?_
  · by_cases hfd : other = fd
    · subst hfd
      rw [holding_stepped]
      exact hholding
    · rw [holding_stepped_of_ne s fd other res hfd]
  · rcases returned_stepped s fd res pid hpid with hold | ⟨packet, hpacket, rfl⟩ | hnew
    · exact hold
    · exact hsent packet hpacket
    · exact hconc pid hnew

/-- A step that sends nothing, after which the CPU has what it had, or less. -/
theorem owned_silent (s : State) (fd : Int) (res : Cpu.Result) (h : Owned s)
    (hinbox : ∃ packets, s.kernel.wire fd = packets ++ res.inbox)
    (hcontrol : ∀ i sigue, res.state.control ≠ .compartida i sigue) (hsent : res.sent = [])
    (hholding : (pending res.inbox ++ running res.state).Subperm (s.holding fd))
    (hconc : ∀ pid, Concludes res.state pid → s.returned pid) : Owned (s.stepped fd res) := by
  have hnone : ∀ packet ∈ res.sent, False := by
    rw [hsent]
    exact fun packet hpacket => absurd hpacket List.not_mem_nil
  exact owned_stepped s fd res h hinbox hcontrol (fun packet hpacket => (hnone packet hpacket).elim)
    (custody_keep s fd res h hholding (fun packet hpacket => (hnone packet hpacket).elim) hconc)

/-- The CPU gives a process up. -/
theorem custody_release (s : State) (fd : Int) (res : Cpu.Result) (pid : Int) (h : Owned s)
    (hholding : (pid :: (pending res.inbox ++ running res.state)).Subperm (s.holding fd))
    (hsent : ∀ packet ∈ res.sent, packetPid packet = pid)
    (hconc : ∀ other, Concludes res.state other → other = pid) :
    Exclusive s.lent s.ended (s.stepped fd res).holding (s.stepped fd res).returned := by
  refine exclusive_release s.lent s.ended s.holding _ s.returned _ pid fd h.custody ?_
    (fun other hfd => holding_stepped_of_ne s fd other res hfd) fun other hother => ?_
  · rw [holding_stepped]
    exact hholding
  · rcases returned_stepped s fd res other hother with hold | ⟨packet, hpacket, rfl⟩ | hnew
    · exact Or.inr hold
    · exact Or.inl (hsent packet hpacket)
    · exact Or.inl (hconc other hnew)

/-- A message that hands a process back names it, if its number fits a field. -/
theorem packetPid_handsBack (packet : Packet) (pid : Int) (hshort : Short pid)
    (h : Cpu.HandsBack packet pid) : packetPid packet = pid := by
  rcases h with ⟨-, pcb, hpid, hcarries⟩
  rw [carries_pid packet pcb hcarries, hpid]
  exact toShort_of_short pid hshort

theorem shape_handsBack (packet : Packet) (pid : Int) (h : Cpu.HandsBack packet pid) :
    packet.header.opcode = .OP_CPU_PROGRAM_END ∧ 2 ≤ packet.payload.length := by
  rcases h with ⟨hop, pcb, -, hcarries⟩
  have hlen := carries_length packet pcb hcarries
  exact ⟨hop, by omega⟩

theorem not_concludes_of_control (cpu : Cpu.State) (pid : Int)
    (h : ∀ i linea, cpu.control ≠ .linea i linea) : ¬ Concludes cpu pid := by
  rintro ⟨⟨i, linea, hlinea⟩, -⟩
  exact h i linea hlinea

/-- A CPU that waits for the kernel takes the next packet. -/
theorem owned_espera (config : Config) (s : State) (r : Cpu.Residue) (fd : Int) (cpu : Cpu.State)
    (res : Cpu.Result) (h : Owned s) (hcpu : s.cpus fd = some cpu) (hcontrol : cpu.control = .espera)
    (hstep : Cpu.step config.cpu r cpu s.memoria (s.kernel.wire fd) = some res) :
    Owned (s.stepped fd res) := by
  rcases Cpu.step_espera_cases config.cpu r cpu s.memoria _ res hcontrol hstep with
    ⟨packet, hwire, -, hsent, hcase⟩
  have hmem : packet ∈ s.kernel.wire fd := by
    rw [hwire]
    exact List.mem_cons_self
  have hbefore : s.holding fd = pending (packet :: res.inbox) := by
    unfold State.holding
    rw [hwire, hcpu]
    simp only [running, hcontrol, List.append_nil]
  rcases hcase with ⟨hop, hstate⟩ | hquantum | ⟨hop, hstate⟩
  -- The block was lent to the CPU on the wire, and now it is executed.
  · have hcontrol' : res.state.control = .bucle 1 := by
      rw [hstate]
      rfl
    have hpid : res.state.pcbActual.idProcess = packetPid packet := by
      rw [hstate]
      exact serialUnpackPcb_pid packet _ ((h.wire fd packet hmem).2 hop)
    refine owned_silent s fd res h ⟨[packet], hwire⟩ (by rw [hcontrol']; simp) hsent ?_
      fun pid hconc => ?_
    · rw [hbefore, pending_pcb packet res.inbox hop]
      unfold running
      rw [hcontrol']
      simp only [hpid]
      exact (List.perm_append_singleton _ _).subperm
    · exact absurd hconc (not_concludes_of_control _ pid (by rw [hcontrol']; simp))
  · exact absurd hquantum (h.wire fd packet hmem).1
  -- The packet is read and forgotten.
  · refine owned_silent s fd res h ⟨[packet], hwire⟩ (by rw [hstate, hcontrol]; simp) hsent ?_
      fun pid hconc => ?_
    · rw [hbefore, pending_other packet res.inbox hop, hstate]
      unfold running
      rw [hcontrol]
      simp only [List.append_nil]
      exact List.Subperm.refl _
    · exact absurd hconc (not_concludes_of_control _ pid (by rw [hstate, hcontrol]; simp))

/-- A CPU at the test of its loop fetches a line, or ends the burst. -/
theorem owned_bucle (config : Config) (s : State) (r : Cpu.Residue) (fd : Int) (cpu : Cpu.State)
    (res : Cpu.Result) (i : Int) (h : Owned s) (hcpu : s.cpus fd = some cpu)
    (hcontrol : cpu.control = .bucle i)
    (hstep : Cpu.step config.cpu r cpu s.memoria (s.kernel.wire fd) = some res) :
    Owned (s.stepped fd res) := by
  rcases Cpu.step_bucle_cases config.cpu r cpu s.memoria _ res i hcontrol hstep with
    ⟨hinbox, hcase⟩
  have hbefore : s.holding fd = pending res.inbox ++ [cpu.pcbActual.idProcess] := by
    unfold State.holding
    rw [hinbox, hcpu]
    simp only [running, hcontrol]
  have hlent : s.lent cpu.pcbActual.idProcess := by
    apply h.custody.lent_of_mem fd
    rw [hbefore]
    exact List.mem_append_right _ (List.mem_singleton_self _)
  have hshort := short_of_registered s h _ (Or.inl hlent)
  have hwire : ∃ packets, s.kernel.wire fd = packets ++ res.inbox :=
    ⟨[], by rw [hinbox, List.nil_append]⟩
  have hperm : (cpu.pcbActual.idProcess :: pending res.inbox).Subperm (s.holding fd) := by
    rw [hbefore]
    exact (List.perm_append_singleton _ _).symm.subperm
  rcases hcase with ⟨-, hsent, conn, linea, hstate⟩ | ⟨-, -, hstate, hsent⟩
  · by_cases hfin : cpu.finPrograma = true
    -- A flag left over from an earlier burst: the next line is the last one.
    · have hnone : ∀ p ∈ res.sent, False := by
        rw [hsent]
        exact fun p hp => absurd hp List.not_mem_nil
      refine owned_stepped s fd res h hwire (by rw [hstate]; simp) (fun p hp => (hnone p hp).elim)
        (custody_release s fd res cpu.pcbActual.idProcess h ?_ (fun p hp => (hnone p hp).elim)
          fun pid hconc => ?_)
      · rw [hstate]
        simp only [running, hfin, if_true, List.append_nil]
        exact hperm
      · rcases hconc with ⟨-, -, hpid⟩
        rw [hstate] at hpid
        exact hpid.symm
    · refine owned_silent s fd res h hwire (by rw [hstate]; simp) hsent ?_ fun pid hconc => ?_
      · rw [hstate, hbefore]
        simp only [running, hfin]
        exact List.Subperm.refl _
      · rcases hconc with ⟨-, hfin', -⟩
        rw [hstate] at hfin'
        exact absurd hfin' hfin
  · have hquiet : ∀ pid, ¬ Concludes res.state pid := fun pid =>
      not_concludes_of_control _ pid (by rw [hstate]; simp)
    have hrun : running res.state = [] := by rw [hstate]; rfl
    rcases hsent with ⟨-, hsent⟩ | ⟨packet, hsent, hback⟩
    · refine owned_silent s fd res h hwire (by rw [hstate]; simp) hsent ?_
        fun pid hconc => absurd hconc (hquiet pid)
      rw [hrun, List.append_nil]
      exact (List.sublist_cons_self _ _).subperm.trans hperm
    · have honly : ∀ p ∈ res.sent, p = packet := by
        rw [hsent]
        exact fun p hp => List.mem_singleton.mp hp
      refine owned_stepped s fd res h hwire (by rw [hstate]; simp)
        (fun p hp => honly p hp ▸ shape_handsBack packet _ hback)
        (custody_release s fd res cpu.pcbActual.idProcess h ?_
          (fun p hp => honly p hp ▸ packetPid_handsBack packet _ hshort hback)
          fun pid hconc => absurd hconc (hquiet pid))
      rw [hrun, List.append_nil]
      exact hperm

/-- A CPU inside a line, at a call that is not one of the kernel's functions. -/
theorem owned_linea (config : Config) (s : State) (r : Cpu.Residue) (fd : Int) (cpu : Cpu.State)
    (res : Cpu.Result) (i : Int) (linea : Linea) (h : Owned s) (hcpu : s.cpus fd = some cpu)
    (hcontrol : cpu.control = .linea i linea) (hcall : linea.callsKernel = false)
    (hstep : Cpu.step config.cpu r cpu s.memoria (s.kernel.wire fd) = some res) :
    Owned (s.stepped fd res) := by
  have hlinea : Cpu.stepLinea config.cpu r cpu s.memoria (s.kernel.wire fd) i linea = some res := by
    rw [← Cpu.step_linea config.cpu r cpu s.memoria _ i linea hcontrol]
    exact hstep
  have hrunning : running cpu = if cpu.finPrograma then [] else [cpu.pcbActual.idProcess] := by
    simp only [running, hcontrol]
  have hholding : s.holding fd = pending (s.kernel.wire fd) ++ running cpu := by
    unfold State.holding
    rw [hcpu]
  -- The process is with the CPU, or has been handed back by this very line.
  have hregistered : s.lent cpu.pcbActual.idProcess ∨ s.ended cpu.pcbActual.idProcess := by
    by_cases hfin : cpu.finPrograma = true
    · exact h.custody.registered _ (Or.inr ⟨fd, cpu, hcpu, ⟨i, linea, hcontrol⟩, hfin, rfl⟩)
    · refine Or.inl (h.custody.lent_of_mem fd _ ?_)
      rw [hholding, hrunning, if_neg hfin]
      exact List.mem_append_right _ (List.mem_singleton_self _)
  have hshort := short_of_registered s h _ hregistered
  rcases Cpu.stepLinea_cases config.cpu r cpu s.memoria _ i linea res hcall hlinea with
    ⟨hinbox, hpid, ⟨linea', hcontrol'⟩, hcase⟩ | ⟨hinbox, hsent, hcase⟩
  · have hwire : ∃ packets, s.kernel.wire fd = packets ++ res.inbox :=
      ⟨[], by rw [hinbox, List.nil_append]⟩
    have hrunning' : running res.state
        = if res.state.finPrograma then [] else [cpu.pcbActual.idProcess] := by
      simp only [running, hcontrol', hpid]
    rcases hcase with ⟨hsent, hfin⟩ | ⟨hfin, packet, hsent, hback⟩
    · refine owned_silent s fd res h hwire (by rw [hcontrol']; simp) hsent ?_ fun pid hconc => ?_
      · rw [hholding, hinbox, hrunning, hrunning', hfin]
      · rcases hconc with ⟨-, hfin', rfl⟩
        exact Or.inr ⟨fd, cpu, hcpu, ⟨i, linea, hcontrol⟩, hfin ▸ hfin', hpid.symm⟩
    · have honly : ∀ p ∈ res.sent, p = packet := by
        rw [hsent]
        exact fun p hp => List.mem_singleton.mp hp
      have hname := packetPid_handsBack packet _ hshort hback
      refine owned_stepped s fd res h hwire (by rw [hcontrol']; simp)
        (fun p hp => honly p hp ▸ shape_handsBack packet _ hback) ?_
      by_cases hbefore : cpu.finPrograma = true
      -- It had been handed back, and is handed back again.
      · have hreturned : s.returned cpu.pcbActual.idProcess :=
          Or.inr ⟨fd, cpu, hcpu, ⟨i, linea, hcontrol⟩, hbefore, rfl⟩
        refine custody_keep s fd res h ?_
          (fun p hp => honly p hp ▸ hname.symm ▸ hreturned) fun pid hconc => ?_
        · rw [hholding, hinbox, hrunning, hrunning', hfin, hbefore]
        · rcases hconc with ⟨-, -, rfl⟩
          exact hpid.symm ▸ hreturned
      · refine custody_release s fd res cpu.pcbActual.idProcess h ?_
          (fun p hp => honly p hp ▸ hname) fun pid hconc => ?_
        · rw [hholding, hinbox, hrunning, hrunning', hfin, if_pos rfl, if_neg hbefore,
            List.append_nil]
          exact (List.perm_append_singleton _ _).symm.subperm
        · rcases hconc with ⟨-, -, rfl⟩
          exact hpid
  · have hwire : ∃ packets, s.kernel.wire fd = packets ++ res.inbox :=
      ⟨[], by rw [hinbox, List.nil_append]⟩
    rcases hcase with hespera | ⟨hbucle, hpid, hfin, hfin'⟩
    -- The line was the last one of the burst.
    · refine owned_silent s fd res h hwire (by rw [hespera]; simp) hsent ?_ fun pid hconc => ?_
      · have hrun : running res.state = [] := by simp only [running, hespera]
        rw [hholding, hrun, List.append_nil, hinbox]
        exact (List.sublist_append_left _ _).subperm
      · exact absurd hconc (not_concludes_of_control _ pid (by rw [hespera]; simp))
    · refine owned_silent s fd res h hwire (by rw [hbucle]; simp) hsent ?_ fun pid hconc => ?_
      · have hrun : running res.state = [cpu.pcbActual.idProcess] := by
          simp only [running, hbucle, hpid]
        rw [hholding, hinbox, hrun, hrunning, hfin]
        exact List.Subperm.refl _
      · exact absurd hconc (not_concludes_of_control _ pid (by rw [hbucle]; simp))

/-- A step of a CPU. -/
theorem owned_stepCpu (config : Config) (s u : State) (r : Cpu.Residue) (fd : Int) (h : Owned s)
    (hcall : s.calling fd = false) (hstep : stepCpu config s r fd = some u) : Owned u := by
  rcases stepCpu_cases config s u r fd hstep with ⟨cpu, res, hcpu, hres, rfl⟩
  cases hcontrol : cpu.control with
  | espera => exact owned_espera config s r fd cpu res h hcpu hcontrol hres
  | bucle i => exact owned_bucle config s r fd cpu res i h hcpu hcontrol hres
  | linea i linea =>
      have hquiet : linea.callsKernel = false := by
        simp only [State.calling, hcpu, hcontrol] at hcall
        exact hcall
      exact owned_linea config s r fd cpu res i linea h hcpu hcontrol hquiet hres
  | compartida i sigue => exact absurd hcontrol (h.control fd cpu hcpu i sigue)

/-- What the memory server has not served is the end of what it had been sent. -/
theorem cliThread_suffix (server server' : Memoria.ServerState)
    (conn conn' : Memoria.Connection) (heap heapData : Buf) (packets rest : List Packet)
    (reply : Packet) (h : Memoria.cliThread server conn heap heapData packets
      = some (.replied server' conn' reply rest)) : ∃ served, packets = served ++ rest := by
  cases packets with
  | nil => exact absurd h (by simp [Memoria.cliThread])
  | cons packet packets =>
      unfold Memoria.cliThread at h
      cases hop : packet.header.opcode with
      | OP_ME_INIPRO =>
          simp only [hop, Option.some.injEq, Memoria.Round.replied.injEq] at h
          exact ⟨[packet], by rw [h.2.2.2]; rfl⟩
      | OP_ME_SOLBYTPAG =>
          simp only [hop] at h
          split at h
          · simp only [Option.some.injEq, Memoria.Round.replied.injEq] at h
            exact ⟨[packet], by rw [h.2.2.2]; rfl⟩
          · exact absurd h (by simp)
      | OP_ME_ALMBYTPAG =>
          simp only [hop] at h
          -- The only request that is two packets long.
          cases packets with
          | nil => exact absurd h (by simp)
          | cons data packets =>
              simp only [Option.some.injEq, Memoria.Round.replied.injEq] at h
              exact ⟨[packet, data], by rw [h.2.2.2]; rfl⟩
      | OP_ME_FINPRO =>
          simp only [hop, Option.some.injEq, Memoria.Round.replied.injEq] at h
          exact ⟨[packet], by rw [h.2.2.2]; rfl⟩
      | _ => exact absurd h (by simp [hop])

/-- A round of the memory server takes packets off the front of its wire. -/
theorem stepMemoria_cases (s u : State) (heap heapData : Buf)
    (h : stepMemoria s heap heapData = some u) :
    ∃ server conn served rest, s.kernel.wire s.kernel.memfd = served ++ rest ∧ u = { s with
      memoria := server
      memoriaConn := conn
      kernel := { s.kernel with wire := Function.update s.kernel.wire s.kernel.memfd rest } } := by
  unfold stepMemoria at h
  split at h
  · rename_i server conn reply rest hround
    rw [Option.some.injEq] at h
    rcases cliThread_suffix _ _ _ _ _ _ _ _ _ hround with ⟨served, hwire⟩
    exact ⟨server, conn, served, rest, hwire, h.symm⟩
  · exact absurd h (by simp)

theorem owned_stepMemoria (s u : State) (heap heapData : Buf) (h : Owned s)
    (hstep : stepMemoria s heap heapData = some u) : Owned u := by
  rcases stepMemoria_cases s u heap heapData hstep with ⟨server, conn, served, rest, hwire, rfl⟩
  refine ⟨h.genNonneg, h.genShort, h.once, h.created, ?_, fun fd packet hpacket => ?_, h.outbox,
    h.control⟩
  · refine exclusive_subperm s.lent _ s.ended _ s.holding _ s.returned _ h.custody
      (fun _ hp => hp) (fun _ hp => hp) (fun fd => ?_) fun _ hp => hp
    unfold State.holding
    by_cases hfd : fd = s.kernel.memfd
    · subst hfd
      simp only [Function.update_self]
      rw [hwire]
      exact List.subperm_append_right _ |>.mpr (pending_subperm served rest)
    · simp only [Function.update_of_ne hfd]
      exact List.Subperm.refl _
  · exact h.wire fd packet (mem_update_suffix _ _ served rest hwire fd packet hpacket)

/-- A CPU that connects is one more client of the kernel, and has read all it was sent. -/
theorem stepConnect_cases (config : Config) (s u : State) (r : Kernel.Residue) (fd : Int)
    (conn : Memoria.Connection) (h : stepConnect config s r fd conn = some u) :
    s.cpus fd = none ∧ u = { s with
      kernel := { s.kernel with
        cpuConectadas := s.kernel.cpuConectadas ++ [{ clientID := fd, process := .CPU, pids := [] }]
        wire := Function.update s.kernel.wire fd [] }
      cpus := Function.update s.cpus fd (some (Cpu.State.init conn)) } := by
  unfold stepConnect at h
  split at h
  · rename_i kernel hfd hkernel
    rw [Option.some.injEq] at h
    rw [← h, Kernel.step_connectCpu _ _ _ _ _ _ hkernel]
    -- The greeting is the last packet on the wire, and is read with the rest.
    simp only [Kernel.State.send, Function.update_idem]
    exact ⟨hfd, trivial⟩
  · exact absurd h (by simp)

/-- A CPU that connects has nothing and is told nothing. -/
theorem owned_stepConnect (config : Config) (s u : State) (r : Kernel.Residue) (fd : Int)
    (conn : Memoria.Connection) (h : Owned s) (hstep : stepConnect config s r fd conn = some u) :
    Owned u := by
  rcases stepConnect_cases config s u r fd conn hstep with ⟨-, rfl⟩
  refine ⟨h.genNonneg, h.genShort, h.once, h.created, ?_, fun other packet hpacket => ?_, h.outbox,
    fun other cpu hcpu => ?_⟩
  · refine exclusive_subperm s.lent _ s.ended _ s.holding _ s.returned _ h.custody
      (fun _ hp => hp) (fun _ hp => hp) (fun other => ?_) fun pid hret => ?_
    · unfold State.holding
      by_cases hne : other = fd
      · subst hne
        simp only [Function.update_self, pending_nil, running, Cpu.State.init, List.append_nil]
        exact List.nil_subperm
      · -- The others hold what they held.
        simp only [Function.update_of_ne hne]
        exact List.Subperm.refl _
    · rcases hret with hsent | ⟨other, cpu, hcpu, hconc⟩
      · exact Or.inl hsent
      · rcases cpus_update s.cpus fd other _ cpu hcpu with rfl | hold
        · exact absurd hconc (not_concludes_of_control _ pid (by simp [Cpu.State.init]))
        · exact Or.inr ⟨other, cpu, hold, hconc⟩
  · exact h.wire other packet
      (mem_update_suffix _ fd (s.kernel.wire fd) [] (List.append_nil _).symm other packet hpacket)
  · rcases cpus_update s.cpus fd other _ cpu hcpu with rfl | hold
    · simp [Cpu.State.init]
    · exact h.control other cpu hold

/-- The kernel reads the first packet of a CPU, and what it needs of the rest. -/
theorem stepSyscall_cases (config : Config) (s u : State) (r : Kernel.Residue)
    (cpu : Kernel.Client) (h : stepSyscall config s r cpu = some u) :
    ∃ packet siguientes kernel rest, s.outbox cpu.clientID = packet :: siguientes
      ∧ Kernel.gestionSyscall config.kernel s.kernel r packet cpu siguientes = some (kernel, rest)
      ∧ u = { s with
          kernel := kernel
          outbox := Function.update s.outbox cpu.clientID rest } := by
  unfold stepSyscall at h
  split at h
  · split at h
    · exact absurd h (by simp)
    · rename_i packet siguientes houtbox
      split at h
      · rename_i kernel rest hsys
        rw [Option.some.injEq] at h
        exact ⟨packet, siguientes, kernel, rest, houtbox, hsys, h.symm⟩
      · exact absurd h (by simp)
  · exact absurd h (by simp)

theorem owned_stepSyscall (config : Config) (s u : State) (r : Kernel.Residue)
    (cpu : Kernel.Client) (h : Owned s) (hstep : stepSyscall config s r cpu = some u) : Owned u := by
  rcases stepSyscall_cases config s u r cpu hstep with
    ⟨packet, siguientes, kernel, rest, houtbox, hsys, rfl⟩
  exact owned_programEnd config.kernel s kernel r cpu packet siguientes rest h houtbox hsys

/-- What the kernel does on its own changes nothing but the kernel. -/
theorem stepKernel_cases (config : Config) (s u : State) (r : Kernel.Residue)
    (event : Kernel.Event) (h : stepKernel config s r event = some u) :
    ∃ kernel, s.kernel.step config.cpu.parser config.kernel (r, event) = some kernel
      ∧ u = { s with kernel := kernel } ∧ (∀ fd, event ≠ .connectCpu fd)
      ∧ ∀ cpu packet siguientes, event ≠ .syscall cpu packet siguientes := by
  unfold stepKernel at h
  split at h
  · exact absurd h (by simp)
  · exact absurd h (by simp)
  · rename_i hconnect hsyscall
    split at h
    · rename_i kernel hk
      rw [Option.some.injEq] at h
      exact ⟨kernel, hk, h.symm, hconnect, hsyscall⟩
    · exact absurd h (by simp)

theorem owned_stepKernel (config : Config) (s u : State) (r : Kernel.Residue)
    (event : Kernel.Event) (h : Owned s) (hok : Undivided s (.kernel r event))
    (hstep : stepKernel config s r event = some u) : Owned u := by
  rcases stepKernel_cases config s u r event hstep with ⟨kernel, hk, rfl, hconnect, hsyscall⟩
  cases event with
  | connectConsole fd =>
      obtain rfl := Kernel.step_connectConsole _ _ _ kernel r fd hk
      exact owned_of_total_eq s _ h
        ⟨Kernel.adds_of_wire_eq _ _ rfl, fun _ => rfl, fun _ hp => hp⟩ rfl fun _ => rfl
  | connectCpu fd => exact absurd rfl (hconnect fd)
  | newProgram console program =>
      exact owned_newProgram config.cpu.parser config.kernel s kernel r program console h hok hk
  | planificacion res => exact owned_planificacion config.kernel s kernel r res h hk
  | syscall cpu packet siguientes => exact absurd rfl (hsyscall cpu packet siguientes)
  | destroyConsole client =>
      obtain rfl := Kernel.step_destroyConsole _ _ _ kernel r client hk
      rcases Kernel.quiet_destroyConsole s.kernel r client h.once with ⟨hquiet, htotal⟩
      exact owned_of_total_eq s _ h hquiet (Kernel.keeps_destroyConsole s.kernel r client).1 htotal
  | kill pid =>
      rcases Kernel.step_kill _ _ _ kernel r pid hk with ⟨-, rfl⟩
      exact owned_of_total_eq s _ h (Kernel.quiet_terminalKill s.kernel pid) rfl
        (Kernel.total_terminalKill s.kernel pid)

/-- Every step of the system that hands no process over in the middle of its burst. -/
theorem owned_step (config : Config) (s : State) (e : Event) (u : State) (h : Owned s)
    (hok : Undivided s e) (hstep : step config s e = some u) : Owned u := by
  cases e with
  | kernel r event => exact owned_stepKernel config s u r event h hok hstep
  | connectCpu r fd conn => exact owned_stepConnect config s u r fd conn h hstep
  | syscall r cpu => exact owned_stepSyscall config s u r cpu h hstep
  | memoria heap heapData => exact owned_stepMemoria s u heap heapData h hstep
  | cpu r fd => exact owned_stepCpu config s u r fd h hok hstep

theorem owned_init (multipgLevel memfd : Int) (semInit : List Int) (shared : Nat)
    (memoria : Memoria.ServerState) (memoriaConn : Memoria.Connection) :
    Owned (init multipgLevel memfd semInit shared memoria memoriaConn) where
  genNonneg := le_refl 0
  genShort := by simp [init, Kernel.State.init]
  once := fun pid => Nat.zero_le 1
  created := fun pid hpos => absurd hpos (Nat.lt_irrefl 0)
  custody := by
    refine exclusive_subperm _ _ _ _ (fun _ => []) _ (fun _ => False) _
      (exclusive_empty (init multipgLevel memfd semInit shared memoria memoriaConn).lent
        (init multipgLevel memfd semInit shared memoria memoriaConn).ended)
      (fun _ hp => hp) (fun _ hp => hp) (fun _ => List.Subperm.refl _) fun pid hret => ?_
    rcases hret with ⟨fd, packet, hpacket, -⟩ | ⟨fd, cpu, hcpu, -⟩
    · exact absurd hpacket List.not_mem_nil
    · exact absurd hcpu (by simp [init])
  wire := fun fd packet hpacket => absurd hpacket List.not_mem_nil
  outbox := fun fd packet hpacket => absurd hpacket List.not_mem_nil
  control := fun fd cpu hcpu => absurd hcpu (by simp [init])

/-- A process a CPU executes is in what it has been lent, or has been handed back. -/
theorem holding_of_executing (s : State) (h : Owned s) (fd pid : Int)
    (hexec : s.executing fd = some pid) : pid ∈ s.holding fd ∨ s.returned pid := by
  unfold State.executing at hexec
  split at hexec
  · rename_i cpu hcpu
    -- A process that runs is held by its processor.
    have hmem : pid ∈ running cpu → pid ∈ s.holding fd := by
      intro hrun
      unfold State.holding
      rw [hcpu]
      exact List.mem_append_right _ hrun
    cases hcontrol : cpu.control with
    | espera => simp [hcontrol] at hexec
    | bucle i =>
        simp only [hcontrol, Option.some.injEq] at hexec
        exact Or.inl (hmem (by simp [running, hcontrol, hexec]))
    | linea i linea =>
        simp only [hcontrol, Option.some.injEq] at hexec
        -- Once the end has been announced the process is no longer held.
        by_cases hfin : cpu.finPrograma = true
        · exact Or.inr (Or.inr ⟨fd, cpu, hcpu, ⟨i, linea, hcontrol⟩, hfin, hexec⟩)
        · exact Or.inl (hmem (by simp [running, hcontrol, hexec, hfin]))
    | compartida i sigue => exact absurd hcontrol (h.control fd cpu hcpu i sigue)
  · exact absurd hexec (by simp)

/-- A process a CPU is about to fetch an instruction for has not been handed back. -/
theorem holding_of_fetching (s : State) (fd pid : Int) (hfetch : s.fetching fd = some pid) :
    pid ∈ s.holding fd := by
  unfold State.fetching at hfetch
  split at hfetch
  · rename_i cpu hcpu
    split at hfetch
    · rename_i i hcontrol
      split at hfetch
      · rw [Option.some.injEq] at hfetch
        unfold State.holding
        rw [hcpu]
        refine List.mem_append_right _ ?_
        simp [running, hcontrol, hfetch]
      · exact absurd hfetch (by simp)
    · exact absurd hfetch (by simp)
  · exact absurd hfetch (by simp)

/-- What a CPU has been lent and not given back is in `pcb_exec`. -/
theorem exec_of_holding (s : State) (h : Owned s) (fd pid : Int) (hmem : pid ∈ s.holding fd) :
    ∃ pcb ∈ s.kernel.pcbExec, pcb.idProcess = pid := by
  have hlent := h.custody.lent_of_mem fd pid hmem
  have hany := (Kernel.occurrences_pos pid _).mp hlent
  rw [List.any_eq_true] at hany
  rcases hany with ⟨pcb, hpcb, hid⟩
  exact ⟨pcb, hpcb, by simpa using hid⟩

/-- The invariant makes a fetch safe. -/
theorem fetchSafe_of_owned (s : State) (e : Event) (h : Owned s) : FetchSafe s e := by
  cases e with
  | cpu r fd =>
      intro pid hfetch
      have hmem := holding_of_fetching s fd pid hfetch
      refine ⟨Or.inl (exec_of_holding s h fd pid hmem), fun other hne hholds => ?_⟩
      -- Whatever the other CPU has of the process, this one does not have.
      rcases hholds with hpending | hexec
      · exact hne (h.custody.apart other fd pid (List.mem_append_left _ hpending) hmem)
      · rcases holding_of_executing s h other pid hexec with hother | hreturned
        · exact hne (h.custody.apart other fd pid hother hmem)
        · exact h.custody.free pid hreturned fd hmem
  | kernel r event => trivial
  | connectCpu r fd conn => trivial
  | syscall r cpu => trivial
  | memoria heap heapData => trivial

/-- In a run from start-up none of whose steps hands a process over in the middle of its
    burst, whenever a CPU is about to fetch an instruction of a process the kernel
    accounts for the process and no other CPU has it. -/
theorem fetch_safe_along (config : Config) (multipgLevel memfd : Int) (semInit : List Int)
    (shared : Nat) (memoria : Memoria.ServerState) (memoriaConn : Memoria.Connection)
    (es : List Event)
    (hok : Along (step config) Undivided
      (init multipgLevel memfd semInit shared memoria memoriaConn) es) :
    Along (step config) FetchSafe
      (init multipgLevel memfd semInit shared memoria memoriaConn) es :=
  along_of_invariant (step config) Undivided FetchSafe Owned
    (fun s e u h hok hstep => owned_step config s e u h hok hstep)
    (fun s e h _ => fetchSafe_of_owned s e h) _ es
    (owned_init multipgLevel memfd semInit shared memoria memoriaConn) hok

/-- A parser that knows two lines, `wait s` and `end`, by their first letter, and gives
    every program two lines of four bytes. -/
def waitParser : Parser :=
  { lineSize := 64
    metadataDesdeLiteral := fun _ =>
      { instruccionInicio := 0
        instruccionesSize := 2
        instruccionesSerializado := [{ start := 0, offset := 4 }, { start := 4, offset := 4 }]
        etiquetasSize := 0
        etiquetas := fun _ => 0
        cantidadDeFunciones := 0
        cantidadDeEtiquetas := 0 }
    metadataBuscarEtiqueta := fun _ _ _ => -1
    analizadorLinea := fun texto =>
      if texto.head? = some 119 then .wait [115] .fin else .finalizar .fin }

/-- One semaphore `s`, pages of four bytes, no quantum. -/
def waitConfig : Config :=
  { kernel := { Kernel.sampleConfig with sharedVars := [] }
    cpu := { stackSize := 1, tamanioPagina := 4, parser := waitParser, puntero := id } }

def zeroKernel : Kernel.Residue :=
  { payload := fun _ _ => 0, buffer := fun _ => 0, freed := id }

def zeroCpu : Cpu.Residue :=
  { server := fun _ => 0, serverData := fun _ => 0, reply := fun _ => 0, buffer := fun _ => 0
    id := 0 }

def freshServer : Memoria.ServerState :=
  { marcoSize := 4, pageTable := Memoria.getPageTable 8, main := fun _ => 0 }

def freshClient : Memoria.Connection :=
  { header := protocolHeader .CPU .OP_HANDSHAKE, buffer := fun _ => 0 }

/-- The semaphore is 1. -/
abbrev startUp : State := init 3 4 [1] 0 freshServer freshClient

/-- A console and a CPU connect, a program arrives, is loaded and dispatched, and the CPU
    fetches its first line. -/
def firstFetch (code : List UInt8) : List Event :=
  [.kernel zeroKernel (.connectConsole 5), .connectCpu zeroKernel 6 freshClient,
    .kernel zeroKernel (.newProgram 5
      { header := protocolHeader .CONSOLE .OP_NEW_PROGRAM, payload := code }),
    .kernel zeroKernel (.planificacion 1), .memoria (fun _ => 0) fun _ => 0,
    .memoria (fun _ => 0) fun _ => 0, .memoria (fun _ => 0) fun _ => 0,
    .memoria (fun _ => 0) fun _ => 0, .cpu zeroCpu 6, .cpu zeroCpu 6]

/-- The program `end`. -/
def endCode : List UInt8 := [101, 110, 100, 10, 101, 110, 100, 10]

/-- The program `w s`, `end`. -/
def waitCode : List UInt8 := [119, 32, 115, 10, 101, 110, 100, 10]

def sampleCpu : Kernel.Client := { clientID := 6, process := .CPU, pids := [] }

/-- The program `end` is executed, and the kernel reads that it has ended. -/
def endRun : List Event :=
  firstFetch endCode ++ [.cpu zeroCpu 6, .cpu zeroCpu 6, .syscall zeroKernel sampleCpu]

theorem endRun_fetch_safe :
    (run (step waitConfig) startUp endRun).isSome
      ∧ Along (step waitConfig) FetchSafe startUp endRun :=
  ⟨by decide +kernel, fetch_safe_along waitConfig 3 4 [1] 0 freshServer freshClient endRun
    (by decide +kernel)⟩

/-- The wait is executed and read by the kernel, which blocks the process; the CPU ends
    the line. -/
def blockedRun : List Event :=
  firstFetch waitCode ++ [.cpu zeroCpu 6, .syscall zeroKernel sampleCpu, .cpu zeroCpu 6]

/-- The state a run leads to, if it can be taken. -/
def ranTo (s : State) (es : List Event) : State := (run (step waitConfig) s es).getD s

theorem run_ranTo (s : State) (es : List Event)
    (h : (run (step waitConfig) s es).isSome = true) :
    run (step waitConfig) s es = some (ranTo s es) :=
  (Option.getD_of_ne_none (Option.isSome_iff_ne_none.mp h) s).symm

/-- The process is in `pcb_block`, nothing of the CPU's is left to read, and the CPU
    fetches its next line. -/
theorem blocked_process_fetches :
    ¬ ∀ (config : Config) (multipgLevel memfd : Int) (semInit : List Int) (shared : Nat)
        (memoria : Memoria.ServerState) (memoriaConn : Memoria.Connection) (es : List Event)
        (t : State),
      run (step config) (init multipgLevel memfd semInit shared memoria memoriaConn) es = some t →
      Along (step config) FetchSafe
        (init multipgLevel memfd semInit shared memoria memoriaConn) es := by
  intro hall
  have hrun := run_ranTo startUp (blockedRun ++ [.cpu zeroCpu 6]) (by decide +kernel)
  have hsafe : Along (step waitConfig) FetchSafe startUp (blockedRun ++ [.cpu zeroCpu 6]) :=
    hall waitConfig 3 4 [1] 0 freshServer freshClient _ _ hrun
  have hlast := along_append (step waitConfig) FetchSafe startUp _ blockedRun [.cpu zeroCpu 6] hsafe
    (run_ranTo startUp blockedRun (by decide +kernel))
  have hrefuted : ∀ u : State, FetchSafe u (.cpu zeroCpu 6) → u.fetching 6 = some 1 →
      u.kernel.pcbExec = [] → u.outbox 6 = [] → False := by
    intro u hu hfetching hexec houtbox
    rcases (hu 1 hfetching).1 with ⟨pcb, hpcb, -⟩ | ⟨packet, hpacket, -⟩
    · rw [hexec] at hpcb
      exact absurd hpcb List.not_mem_nil
    · rw [houtbox] at hpacket
      exact absurd hpacket List.not_mem_nil
  exact hrefuted _ hlast.1 (by decide +kernel) (by decide +kernel) (by decide +kernel)

end System

end Esther
