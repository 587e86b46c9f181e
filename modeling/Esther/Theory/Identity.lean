import Esther.Core.Cpu
import Esther.Theory.Live

/-!
# Process Numbers on the Wire

Whether the memory server can tell the processes apart.

The kernel counts its processes with an `int`, and `usrpid` of a packet is an `unsigned
char`, so that a process goes by the low byte of its number. The server compares the bytes
only. Two processes in the system whose numbers differ by a multiple of 256 are one
process for it, and a process with a multiple of 256 for a number is refused.

Nothing has to go wrong with a process for its byte to come round again: the numbers are
given to all programs that arrive, and one that runs for long will see another with its
own byte admitted sooner or later. A program that waits, or one that ended long ago, is
dangerous too, since its end frees the pages of its byte.

## Main definitions

* `Causes`: The packets a process causes.
* `Identified`: The processes in the system go by different bytes, none of them zero.
* `requests`, `Separate`: The requests of a step are each for one process.
* `entrants`: The processes a step takes up.
* `IdentityKeeps`: The steps that take up no process whose byte is in use.

## Theorems

* `causes_usrpid`: All packets of a process carry its byte.
* `origin_serve`: Who is in the system was there, or has been taken up.
* `identity_throughout`: The processes are told apart in all states of a run of such steps.
* `pid_comes_round`: A run at the end of which two processes go by the same byte.
-/

namespace Esther

namespace Kernel

open Cells Serial Transition Memoria

/-- The packets a process causes: when it is admitted, when it ends, and while a CPU runs
    it. -/
inductive Causes : Int → Packet → Prop
  | iniPro (config : Config) (r : Residue) (pcb : Pcb) (code : List UInt8) :
      Causes pcb.idProcess (iniproPacket config r pcb code)
  | load (config : Config) (r : Residue) (pcb : Pcb) (code : List UInt8) (packet : Packet)
      (hpacket : packet ∈ loadPackets config r pcb code) : Causes pcb.idProcess packet
  | finPro (r : Residue) (code pid : Int) : Causes pid (finproPacket r code pid)
  | request (r : Cpu.Residue) (pcb : Pcb) (opcode : Opcode) (page offset size : Int) :
      Causes pcb.idProcess (Cpu.memoryRequest r pcb opcode page offset size)
  | value (r : Cpu.Residue) (pcb : Pcb) (opcode : Opcode) (page offset size valor : Int) :
      Causes pcb.idProcess
        (Cpu.packed r (Cpu.memoryRequest r pcb opcode page offset size).header [.h valor])

/-- The processes in the system put different positive numbers in the headers of the
    packets they cause. -/
structure Identified (k : State) : Prop where
  positive : ∀ pid, 0 < occurrences pid k.system → ∀ packet, Causes pid packet →
    0 < packet.usrpid
  distinct : ∀ pid other, 0 < occurrences pid k.system → 0 < occurrences other k.system →
    pid ≠ other → ∀ packet packet', Causes pid packet → Causes other packet' →
      packet.usrpid ≠ packet'.usrpid

/-- Whatever the memory server makes of the packet, the pages of the process stay as they
    are. -/
def Spares (packet : Packet) (pid : Int) : Prop :=
  ∀ server conn heap heapData rest server' conn' reply rest',
    cliThread server conn heap heapData (packet :: rest) = some (.replied server' conn' reply rest') →
    ∀ page, marks server'.pageTable (byte pid).toNat page = marks server.pageTable (byte pid).toNat page

/-- The requests of a step, each with the process it is made for. -/
def requests (config : Config) (k : State) (e : Residue × Event) : List (Int × Packet) :=
  match e.2 with
  | .planificacion _ =>
      (k.pcbNew.head?.map fun pcb => pcb.idProcess).toList.flatMap fun pid =>
        (traffic config k e).map fun packet => (pid, packet)
  | .syscall _ packet _ => (traffic config k e).map fun request => (syscallPid e.1 packet, request)
  | .destroyConsole client =>
      (doomed k client.pids).map fun pid => (pid, finproPacket e.1 exitConsoleKilled pid)
  | _ => []

/-- Every request of a step leaves the pages of all processes in the system alone but of the
    one it is made for, and is not refused for its number if it asks for pages. -/
def Separate (config : Config) (k : State) (e : Residue × Event) : Prop :=
  ∀ request ∈ requests config k e, Causes request.1 request.2
    ∧ (∀ other, 0 < occurrences other k.system → other ≠ request.1 →
      (byte other).toNat ≠ request.2.usrpid ∧ Spares request.2 other)
    ∧ (request.2.header.opcode = .OP_ME_INIPRO → 0 < request.2.usrpid)

/-- No other process in the system goes by the byte. -/
def Distinguished (k : State) (pid : Int) : Prop :=
  ∀ pcb ∈ k.system, pcb.idProcess ≠ pid → byte pcb.idProcess ≠ byte pid

/-- The process a signal makes ready, as its number reads from then on. -/
def woken (config : Config) (k : State) (r : Residue) (packet packetSem : Packet) : Option Int :=
  k.solicitudesSem[semaphoreIndex config r packetSem]?.map fun queue =>
    let head := oldestRequest queue (syscallPcb r packet)
    if k.blockedWith (syscallPcb r packet) head.idProcess then (r.freed head).idProcess
    else head.idProcess

/-- The processes a step takes up: the program a round has room for, the caller of a
    semaphore, and the one a signal makes ready. -/
def entrants (config : Config) (k : State) (e : Residue × Event) : List Int :=
  match e.2 with
  | .planificacion _ =>
      if k.hasRoom then (k.pcbNew.head?.map fun pcb => pcb.idProcess).toList else []
  | .syscall _ packet (packetSem :: _) =>
      if packet.header.opcode = .OP_CPU_SEMAPHORE then
        syscallPid e.1 packet
          :: if asksWait e.1 packetSem then [] else (woken config k e.1 packet packetSem).toList
      else []
  | _ => []

/-- The steps that take up no process whose byte is zero or in use, and end none whose byte
    somebody else goes by. -/
structure IdentityKeeps (config : Config) (k : State) (e : Residue × Event) : Prop where
  valid : ∀ pid ∈ entrants config k e, byte pid ≠ 0
  apart : ∀ pid ∈ entrants config k e ++ endings k e, Distinguished k pid
  each : ∀ pid ∈ entrants config k e, ∀ other ∈ entrants config k e, pid ≠ other →
    byte pid ≠ byte other

instance (k : State) (pid : Int) : Decidable (Distinguished k pid) :=
  inferInstanceAs (Decidable (∀ pcb ∈ k.system, pcb.idProcess ≠ pid → byte pcb.idProcess ≠ byte pid))

instance decidableIdentityKeeps (config : Config) (k : State) (e : Residue × Event) :
    Decidable (IdentityKeeps config k e) :=
  decidable_of_iff ((∀ pid ∈ entrants config k e, byte pid ≠ 0)
      ∧ (∀ pid ∈ entrants config k e ++ endings k e, Distinguished k pid)
      ∧ ∀ pid ∈ entrants config k e, ∀ other ∈ entrants config k e, pid ≠ other →
        byte pid ≠ byte other)
    ⟨fun h => ⟨h.1, h.2.1, h.2.2⟩, fun h => ⟨h.valid, h.apart, h.each⟩⟩

section Headers

theorem usrpid_codePackets (config : Config) (r : Residue) (pcb : Pcb) (code : List UInt8)
    (n : Nat) (pag tam : Int) (packet : Packet)
    (h : packet ∈ codePackets config r pcb code n pag tam) :
    packet.header.usrpid = byte pcb.idProcess ∧ packet.header.opcode = .OP_ME_ALMBYTPAG := by
  induction n generalizing pag tam with
  | zero => exact absurd h List.not_mem_nil
  | succ n ih =>
      simp only [codePackets, List.mem_cons] at h
      rcases h with rfl | rfl | hrest
      · exact ⟨rfl, rfl⟩
      · exact ⟨rfl, rfl⟩
      · exact ih _ _ hrest

theorem usrpid_loadPackets (config : Config) (r : Residue) (pcb : Pcb) (code : List UInt8)
    (packet : Packet) (h : packet ∈ loadPackets config r pcb code) :
    packet.header.usrpid = byte pcb.idProcess := by
  simp only [loadPackets, List.mem_cons, List.mem_append, List.not_mem_nil, or_false] at h
  rcases h with rfl | hcode | rfl | rfl
  · rfl
  · exact (usrpid_codePackets config r (admitted config pcb code) code _ _ _ packet hcode).1
  · rfl
  · rfl

/-- All packets of a process carry the low byte of its number. -/
theorem causes_usrpid (pid : Int) (packet : Packet) (h : Causes pid packet) :
    packet.usrpid = (byte pid).toNat := by
  have hheader : packet.header.usrpid = byte pid := by
    cases h with
    | iniPro config r pcb code => rfl
    | load config r pcb code packet hpacket =>
        exact usrpid_loadPackets config r pcb code packet hpacket
    | finPro r code => rfl
    | request r pcb opcode page offset size => rfl
    | value r pcb opcode page offset size valor => rfl
  rw [Packet.usrpid, hheader]

theorem toNat_byte_inj (pid other : Int) :
    ((byte pid).toNat : Int) = (byte other).toNat ↔ byte pid = byte other := by
  rw [Int.natCast_inj, UInt8.toNat_inj]

theorem toNat_byte_pos (pid : Int) : (0 : Int) < (byte pid).toNat ↔ byte pid ≠ 0 := by
  rw [← UInt8.toNat_inj.ne]
  simp only [UInt8.toNat_zero]
  omega

/-- A process is told apart by the packets it causes exactly when it is by its byte. -/
theorem identified_iff (k : State) :
    Identified k ↔ (∀ pid, 0 < occurrences pid k.system → byte pid ≠ 0)
      ∧ ∀ pid other, 0 < occurrences pid k.system → 0 < occurrences other k.system →
        pid ≠ other → byte pid ≠ byte other := by
  -- Any process causes a packet, if only by ending.
  let r : Residue := { payload := fun _ _ => 0, buffer := fun _ => 0, freed := id }
  constructor
  · intro h
    refine ⟨fun pid hpid => ?_, fun pid other hpid hother hne => ?_⟩
    · have hpos := h.positive pid hpid _ (Causes.finPro r 0 pid)
      rwa [causes_usrpid pid _ (Causes.finPro r 0 pid), toNat_byte_pos] at hpos
    · have hdistinct := h.distinct pid other hpid hother hne _ _ (Causes.finPro r 0 pid)
        (Causes.finPro r 0 other)
      rwa [causes_usrpid pid _ (Causes.finPro r 0 pid),
        causes_usrpid other _ (Causes.finPro r 0 other), ne_eq, toNat_byte_inj] at hdistinct
  · rintro ⟨hvalid, hdistinct⟩
    refine ⟨fun pid hpid packet hcauses => ?_, fun pid other hpid hother hne packet packet' hp hp' => ?_⟩
    · rw [causes_usrpid pid packet hcauses, toNat_byte_pos]
      exact hvalid pid hpid
    · rw [causes_usrpid pid packet hp, causes_usrpid other packet' hp', ne_eq, toNat_byte_inj]
      exact hdistinct pid other hpid hother hne

theorem distinguished_iff (k : State) (pid : Int) :
    Distinguished k pid ↔ ∀ other, 0 < occurrences other k.system → other ≠ pid →
      byte other ≠ byte pid := by
  constructor
  · intro h other hother hne
    rcases exists_of_occurrences_pos other k.system hother with ⟨pcb, hpcb, hid⟩
    rw [← hid] at hne ⊢
    exact h pcb hpcb hne
  · intro h pcb hpcb hne
    refine h pcb.idProcess ?_ hne
    rw [occurrences, List.countP_pos_iff]
    exact ⟨pcb, hpcb, beq_self_eq_true _⟩

/-- The server works on the pages of the process a request names. -/
theorem spares_of_ne (packet : Packet) (pid : Int) (hvalid : byte pid ≠ 0)
    (hne : ((byte pid).toNat : Int) ≠ packet.usrpid) : Spares packet pid := by
  intro server conn heap heapData rest server' conn' reply rest' h page
  have hzero : ((byte pid).toNat : Int) ≠ 0 := by
    have hpos := (toNat_byte_pos pid).mpr hvalid
    omega
  rw [cliThread_pageTable server server' conn conn' heap heapData packet reply rest rest' h,
    tableRound]
  split
  · exact marks_setPages_of_ne _ _ page _ hne hzero _
  · exact marks_clearPages_of_ne _ _ page hne hzero _
  · rfl

end Headers

section Steps

theorem origin_gestionSyscall (config : Config) (k u : State) (r : Residue) (cpu : Client)
    (packet : Packet) (siguientes rest : List Packet)
    (h : gestionSyscall config k r packet cpu siguientes = some (u, rest)) (pid : Int)
    (hpid : 0 < occurrences pid u.system) : 0 < occurrences pid k.system
      ∨ pid ∈ entrants config k (r, .syscall cpu packet siguientes) := by
  have hcaller : (syscallPcb r packet).idProcess = syscallPid r packet := rfl
  -- Most of what happens takes blocks out of the queues.
  have hexec : occurrences pid (removePid (syscallPid r packet) k.pcbExec)
      ≤ occurrences pid k.pcbExec := by
    rw [occurrences_removePid]
    split
    · exact Nat.zero_le _
    · exact le_refl _
  rw [occurrences_system] at hpid ⊢
  rcases gestionSyscall_cases config k u r cpu packet siguientes rest h with
    ⟨hop, rfl⟩ | ⟨hop, packetSem, rfl, hsem⟩ | ⟨hop, values, w, rfl⟩ | ⟨hend, hop, hshared, rfl⟩
  · left
    rcases endProgram_eq (k.leaveExec (syscallPid r packet)) r (syscallPcb r packet)
      exitSuccessful with ⟨w, heq⟩
    rw [heq] at hpid
    simp only [State.restoreCPU, State.leaveExec, occurrences_removePid, hcaller] at hpid
    by_cases hself : syscallPid r packet = pid
    · simp only [if_pos hself] at hpid
      omega
    · simp only [if_neg hself] at hpid
      omega
  · simp only [entrants, if_pos hop, List.mem_cons]
    by_cases hself : pid = syscallPid r packet
    · exact Or.inr (Or.inl hself)
    have hother : ¬ (syscallPcb r packet).idProcess = pid := fun hc => hself hc.symm
    rcases hsem with ⟨hwait, k₁, hsem, rfl⟩ | ⟨hwait, k₁, hsem, rfl⟩
    · left
      rcases semWait_cases _ _ _ _ hsem with ⟨_, _, -, -, ⟨-, rfl⟩ | ⟨-, rfl⟩⟩
      · simp only [State.restoreCPU, State.leaveExec, occurrences_append, occurrences_cons,
          occurrences_nil, if_neg hother] at hpid
        omega
      · simp only [State.restoreCPU, State.leaveExec, occurrences_append, occurrences_cons,
          occurrences_nil, if_neg hother] at hpid
        omega
    · rcases semSignal_cases _ _ _ _ _ hsem with ⟨_, queue, head, tail, -, hqueue, hsplit, rfl⟩
      have hhead := oldestRequest_eq queue (syscallPcb r packet) head tail hsplit
      have hfound : ((k.leaveExec (syscallPid r packet)).pcbBlock ++ [syscallPcb r packet]).any
          (fun pcbBlock => pcbEquals head pcbBlock)
          = k.blockedWith (syscallPcb r packet) head.idProcess := any_pcbEquals_block _ _ head
      by_cases hwoken : woken config k r packet packetSem = some pid
      · rw [if_neg hwait, hwoken]
        exact Or.inr (Or.inr (List.mem_singleton_self _))
      · left
        have hready : ¬ (if k.blockedWith (syscallPcb r packet) head.idProcess then r.freed head
            else head).idProcess = pid := by
          intro hc
          refine hwoken ?_
          have hqueue' : k.solicitudesSem[semaphoreIndex config r packetSem]? = some queue := hqueue
          rw [woken, hqueue', Option.map_some, hhead, ← hc, apply_ite Pcb.idProcess]
        have hblock : occurrences pid (removeReady head (readBehind r queue head)
            (k.pcbBlock ++ [syscallPcb r packet])) ≤ _ :=
          (removeReady_sublist head _ _).countP_le
        rw [hfound] at hpid
        simp only [State.restoreCPU, State.leaveExec, occurrences_append, occurrences_cons,
          occurrences_nil, occurrences_removePid, if_neg hready] at hpid hexec ⊢
        have hbefore := occurrences_append pid k.pcbBlock [syscallPcb r packet]
        rw [occurrences_cons, occurrences_nil, if_neg hother] at hbefore
        unfold occurrences at hblock hbefore hpid hexec ⊢
        omega
  · left
    simp only [State.restoreCPU, State.leaveExec] at hpid
    omega
  · left
    simp only [State.leaveExec] at hpid
    omega

/-- Who is in the system after a step was there before, or has been taken up. -/
theorem origin_serve (parser : Parser) (config : Config) (k u : State) (e : Residue × Event)
    (h : k.serve parser config e = some u) (pid : Int) (hpid : 0 < occurrences pid u.system) :
    0 < occurrences pid k.system ∨ pid ∈ entrants config k e := by
  -- Nobody enters but by a round or a message.
  have hquiet : SlotKeeps config k e → admission k e = none → 0 < occurrences pid k.system := by
    intro hok hnone
    rcases (moves_serve parser config k u e hok h).origin pid hpid with hbefore | hin
    · exact hbefore
    · exact absurd (hnone.symm.trans hin) (by simp)
  rcases e with ⟨r, event⟩
  cases event with
  | planificacion res =>
      rcases (moves_planificacion config k u r res h).origin pid hpid with hbefore | hadmitted
      · exact Or.inl hbefore
      · right
        simp only [admission] at hadmitted
        split at hadmitted
        · rename_i hroom
          simp only [entrants, if_pos hroom.1, hadmitted]
          exact List.mem_singleton_self _
        · exact absurd hadmitted (by simp)
  | syscall cpu packet siguientes =>
      rcases serve_syscall parser config k u r cpu packet siguientes h with ⟨rest, hsyscall⟩
      exact origin_gestionSyscall config k u r cpu packet siguientes rest hsyscall pid hpid
  | connectConsole fd => exact Or.inl (hquiet trivial rfl)
  | connectCpu fd => exact Or.inl (hquiet trivial rfl)
  | newProgram console program => exact Or.inl (hquiet trivial rfl)
  | destroyConsole client => exact Or.inl (hquiet trivial rfl)
  | kill killed => exact Or.inl (hquiet trivial rfl)

/-- The requests are those the memory server is sent. -/
theorem requests_traffic (config : Config) (k : State) (e : Residue × Event) :
    (requests config k e).map Prod.snd = traffic config k e := by
  rcases e with ⟨r, event⟩
  cases event with
  | planificacion res =>
      cases hnew : k.pcbNew with
      | nil => simp only [requests, traffic, hnew, List.head?_nil, Option.map_none,
          Option.toList_none, List.flatMap_nil, List.map_nil]
      | cons pcb pcbNew =>
          simp only [requests, hnew, List.head?_cons, Option.map_some, Option.toList_some,
            List.flatMap_singleton, List.map_map]
          exact List.map_id _
  | syscall cpu packet siguientes =>
      simp only [requests, List.map_map]
      exact List.map_id _
  | destroyConsole client =>
      simp only [requests, traffic, List.map_map]
      rfl
  | connectConsole fd => rfl
  | connectCpu fd => rfl
  | newProgram console program => rfl
  | kill pid => rfl

/-- A request is caused by the process it is made for, which the step takes up or ends. -/
theorem causes_requests (config : Config) (k : State) (e : Residue × Event)
    (request : Int × Packet) (h : request ∈ requests config k e) : Causes request.1 request.2
      ∧ (request.1 ∈ entrants config k e
        ∨ request.1 ∈ endings k e ∧ request.2.header.opcode ≠ .OP_ME_INIPRO) := by
  -- A program that ends asks for no pages.
  have hfinpro : ∀ r code pid, (finproPacket r code pid).header.opcode ≠ .OP_ME_INIPRO := by
    intro r code pid
    simp [finproPacket, packed, protocolPacket, protocolHeader]
  rcases e with ⟨r, event⟩
  cases event with
  | planificacion res =>
      cases hnew : k.pcbNew with
      | nil =>
          simp only [requests, hnew, List.head?_nil, Option.map_none, Option.toList_none,
            List.flatMap_nil] at h
          exact absurd h List.not_mem_nil
      | cons pcb pcbNew =>
          simp only [requests, hnew, List.head?_cons, Option.map_some, Option.toList_some,
            List.flatMap_singleton, List.mem_map] at h
          rcases h with ⟨packet, hpacket, rfl⟩
          cases hcodes : k.codesMs with
          | nil =>
              simp only [traffic, hnew, hcodes] at hpacket
              exact absurd hpacket List.not_mem_nil
          | cons code codesMs =>
              simp only [traffic, hnew, hcodes] at hpacket
              split at hpacket
              · rename_i hroom
                refine ⟨?_, Or.inl ?_⟩
                · split at hpacket
                  · exact Causes.load config r pcb code packet hpacket
                  · rw [List.mem_singleton.mp hpacket]
                    exact Causes.iniPro config r pcb code
                · simp only [entrants, if_pos hroom, hnew, List.head?_cons, Option.map_some]
                  exact List.mem_singleton_self _
              · exact absurd hpacket List.not_mem_nil
  | syscall cpu packet siguientes =>
      simp only [requests, List.mem_map] at h
      rcases h with ⟨finpro, hfin, rfl⟩
      simp only [traffic] at hfin
      split at hfin
      · rename_i hop
        rw [List.mem_singleton.mp hfin]
        refine ⟨Causes.finPro r _ _, Or.inr ⟨?_, hfinpro _ _ _⟩⟩
        simp only [endings, if_pos hop]
        exact List.mem_singleton_self _
      · exact absurd hfin List.not_mem_nil
  | destroyConsole client =>
      simp only [requests, List.mem_map] at h
      rcases h with ⟨pid, hpid, rfl⟩
      exact ⟨Causes.finPro r _ _, Or.inr ⟨hpid, hfinpro _ _ _⟩⟩
  | connectConsole fd => exact absurd h List.not_mem_nil
  | connectCpu fd => exact absurd h List.not_mem_nil
  | newProgram console program => exact absurd h List.not_mem_nil
  | kill pid => exact absurd h List.not_mem_nil

/-- The requests of a step, if the processes in the system go by different bytes. -/
theorem separate_of_keeps (config : Config) (k : State) (e : Residue × Event) (hk : Identified k)
    (hok : IdentityKeeps config k e) : Separate config k e := by
  rintro ⟨pid, packet⟩ hrequest
  rcases causes_requests config k e (pid, packet) hrequest with ⟨hcauses, hsubject⟩
  simp only at hcauses hsubject
  have hpid : packet.usrpid = (byte pid).toNat := causes_usrpid pid packet hcauses
  -- The process of the request is on its way in or on its way out.
  have hapart : Distinguished k pid := by
    rcases hsubject with hin | ⟨hout, -⟩
    · exact hok.apart pid (List.mem_append_left _ hin)
    · exact hok.apart pid (List.mem_append_right _ hout)
  refine ⟨hcauses, fun other hother hne => ?_, fun hop => ?_⟩
  · have hbyte : ((byte other).toNat : Int) ≠ packet.usrpid := by
      rw [hpid, ne_eq, toNat_byte_inj]
      exact (distinguished_iff k pid).mp hapart other hother hne
    exact ⟨hbyte, spares_of_ne packet other (((identified_iff k).mp hk).1 other hother) hbyte⟩
  · rcases hsubject with hin | ⟨-, hc⟩
    · simp only
      rw [hpid, toNat_byte_pos]
      exact hok.valid pid hin
    · exact absurd hop hc

/-- The processes are told apart after a step that takes up none whose byte is in use. -/
theorem identified_step (parser : Parser) (config : Config) (k u : State) (e : Residue × Event)
    (hk : Identified k) (hok : IdentityKeeps config k e) (h : k.serve parser config e = some u) :
    Identified u := by
  have horigin := origin_serve parser config k u e h
  rw [identified_iff] at hk ⊢
  -- Whoever comes in differs in its byte from all that are there.
  have hfits : ∀ pid ∈ entrants config k e, ∀ other, 0 < occurrences other k.system →
      other ≠ pid → byte other ≠ byte pid := by
    intro pid hpid
    exact (distinguished_iff k pid).mp (hok.apart pid (List.mem_append_left _ hpid))
  refine ⟨fun pid hpid => ?_, fun pid other hpid hother hne => ?_⟩
  · rcases horigin pid hpid with hbefore | hin
    · exact hk.1 pid hbefore
    · exact hok.valid pid hin
  · rcases horigin pid hpid with hbefore | hin
    · rcases horigin other hother with hbefore' | hin'
      · exact hk.2 pid other hbefore hbefore' hne
      · exact hfits other hin' pid hbefore hne
    · rcases horigin other hother with hbefore' | hin'
      · exact (hfits pid hin other hbefore' (Ne.symm hne)).symm
      · exact hok.each pid hin other hin' hne

end Steps

theorem identified_init (multipgLevel memfd : Int) (semInit : List Int) (shared : Nat) :
    Identified (State.init multipgLevel memfd semInit shared) := by
  refine (identified_iff _).mpr ⟨fun pid hpid => ?_, fun pid _ hpid => ?_⟩
  · exact absurd hpid (Nat.lt_irrefl 0)
  · exact absurd hpid (Nat.lt_irrefl 0)

/-- In a run of the kernel from start-up that takes up no process whose byte is zero or that
    of another process in the system, and ends none with the byte of another, processes in
    the system always put different positive numbers in the packets they cause, and no
    request touches the pages of any process but the one it is made for. -/
theorem identity_throughout (parser : Parser) (config : Config) (multipgLevel memfd : Int)
    (semInit : List Int) (shared : Nat) (es : List (Residue × Event))
    (hok : Along (State.serve parser config) (IdentityKeeps config)
      (State.init multipgLevel memfd semInit shared) es) :
    Throughout (State.serve parser config) Identified
        (State.init multipgLevel memfd semInit shared) es
      ∧ Along (State.serve parser config) (Separate config)
        (State.init multipgLevel memfd semInit shared) es := by
  have hinit := identified_init multipgLevel memfd semInit shared
  constructor
  · exact throughout_invariant_along (State.serve parser config) (IdentityKeeps config) Identified
      (fun k e u hk hok h => identified_step parser config k u e hk hok h) _ es hinit hok
  · exact along_of_invariant (State.serve parser config) (IdentityKeeps config) (Separate config)
      Identified (fun k e u hk hok h => identified_step parser config k u e hk hok h)
      (fun k e hk hok => separate_of_keeps config k e hk hok) _ es hinit hok

set_option maxRecDepth 2000

theorem sampleWait_identity :
    Throughout (State.serve sampleParser sampleConfig) Identified (State.init 3 4 [2] 1) sampleWait
      ∧ Along (State.serve sampleParser sampleConfig) (Separate sampleConfig)
        (State.init 3 4 [2] 1) sampleWait :=
  identity_throughout sampleParser sampleConfig 3 4 [2] 1 sampleWait (by decide)

/-- A program arrives. -/
def sampleNew : Residue × Event :=
  (sampleResidue, .newProgram 5
    { header := protocolHeader .CONSOLE .OP_NEW_PROGRAM, payload := [97, 61, 49, 10] })

/-- Programs that arrive and are killed before they are admitted, the first of them with the
    number `pid`. -/
def comeAndGo : Nat → Int → List (Residue × Event)
  | 0, _ => []
  | n + 1, pid => sampleNew :: (sampleResidue, .kill pid) :: comeAndGo n (pid + 1)

/-- Programs that come and go leave nothing behind but their code. -/
structure Left (k u : State) (n : Nat) : Prop where
  generator : u.generatorPid = k.generatorPid + n
  new : u.pcbNew = []
  ready : u.pcbReady = k.pcbReady
  exec : u.pcbExec = k.pcbExec
  block : u.pcbBlock = k.pcbBlock
  level : u.multipgLevel = k.multipgLevel
  cpus : u.cpuConectadas = k.cpuConectadas
  codes : u.codesMs = k.codesMs ++ List.replicate n [97, 61, 49, 10]

/-- There is always a place for a new program. -/
theorem sampleNew_taken (k : State) (hgen : fitsInt (k.generatorPid + 1)) :
    (k.serve sampleParser sampleConfig sampleNew).isSome := by
  have hcrear : crearPcbProceso sampleParser sampleConfig k
      (sampleParser.metadataDesdeLiteral (Packet.pointer
        { header := protocolHeader .CONSOLE .OP_NEW_PROGRAM, payload := [97, 61, 49, 10] }
        (sampleResidue.payload 0)))
      = some ({ k with generatorPid := k.generatorPid + 1 },
        { waitingPcb with idProcess := k.generatorPid + 1 }) := by
    simp only [crearPcbProceso, hgen, Bool.not_true, Bool.false_eq_true, if_false]
    rfl
  simp only [State.serve, State.step, sampleNew, gestionDatosNewPcb, hcrear]
  rfl

/-- A program that is killed before it is admitted. -/
theorem comeAndGo_step (k : State) (hgen : fitsInt (k.generatorPid + 1)) (hnew : k.pcbNew = [])
    (hready : occurrences (k.generatorPid + 1) k.pcbReady = 0)
    (hblock : occurrences (k.generatorPid + 1) k.pcbBlock = 0) :
    ∃ u v, k.serve sampleParser sampleConfig sampleNew = some u
      ∧ u.serve sampleParser sampleConfig (sampleResidue, .kill (k.generatorPid + 1)) = some v
      ∧ Left k v 1 := by
  rcases Option.isSome_iff_exists.mp (sampleNew_taken k hgen) with ⟨u, hserve⟩
  rcases gestionDatosNewPcb_cases sampleParser sampleConfig k u sampleResidue _ 5 hserve with
    ⟨pcb, consolas, w, hpid, -, -, heq⟩
  refine ⟨u, terminalKill u (k.generatorPid + 1), hserve, ?_, ?_⟩
  · simp only [State.serve, State.step]
    rw [if_pos]
    simp [State.killable, heq, hpid]
  -- Apart from the number it was given, the program leaves nothing behind.
  · refine ⟨?_, ?_, ?_, ?_, ?_, ?_, ?_, ?_⟩
    · rw [heq]
      rfl
    · simp [terminalKill, killIn, heq, hnew, hpid]
    · rw [heq]
      exact (killIn_eq_self_iff _ _).mpr hready
    · rw [heq]
      rfl
    · rw [heq]
      exact (killIn_eq_self_iff _ _).mpr hblock
    · rw [heq]
      rfl
    · rw [heq]
      rfl
    · rw [heq]
      rfl

/-- Any number of programs may come and go, as long as the numbers last. -/
theorem comeAndGo_run (n : Nat) (k : State) (hgen : 0 ≤ k.generatorPid)
    (hlast : k.generatorPid + n < 2 ^ 31) (hnew : k.pcbNew = [])
    (hold : ∀ pcb ∈ k.system, pcb.idProcess ≤ k.generatorPid) :
    ∃ u, run (State.serve sampleParser sampleConfig) k (comeAndGo n (k.generatorPid + 1)) = some u
      ∧ Left k u n := by
  induction n generalizing k with
  | zero =>
      exact ⟨k, rfl, by simp, hnew, rfl, rfl, rfl, rfl, rfl, by simp⟩
  | succ n ih =>
      have hfits : fitsInt (k.generatorPid + 1) := by
        simp only [fitsInt, Bool.and_eq_true, decide_eq_true_eq]
        push_cast at hlast
        omega
      -- The number is larger than those in the system.
      have hfree : occurrences (k.generatorPid + 1) k.system = 0 := by
        rw [occurrences_eq_zero]
        intro pcb hpcb hc
        have hle := hold pcb hpcb
        omega
      rw [occurrences_system] at hfree
      rcases comeAndGo_step k hfits hnew (by omega) (by omega) with ⟨u, v, hu, hv, hleft⟩
      have hsystem : v.system = k.system := by
        rw [State.system, hleft.ready, hleft.exec, hleft.block, State.system]
      have hgenv : v.generatorPid = k.generatorPid + 1 := hleft.generator
      rcases ih v (by omega) (by push_cast at hlast; omega) hleft.new
        (fun pcb hpcb => by have hle := hold pcb (hsystem ▸ hpcb); omega) with ⟨t, ht, hrest⟩
      refine ⟨t, ?_, ?_⟩
      · rw [comeAndGo, run_cons]
        refine ⟨u, hu, (run_cons _ _ _ _ _).mpr ⟨v, hv, ?_⟩⟩
        rw [← hgenv]
        exact ht
      · refine ⟨?_, hrest.new, hrest.ready.trans hleft.ready, hrest.exec.trans hleft.exec,
          hrest.block.trans hleft.block, hrest.level.trans hleft.level,
          hrest.cpus.trans hleft.cpus, ?_⟩
        · rw [hrest.generator, hgenv]
          push_cast
          omega
        · rw [hrest.codes, hleft.codes, List.append_assoc, List.replicate_append_replicate,
            Nat.add_comm 1 n]

/-- A program is admitted, and 255 programs come and go after it. -/
def sampleRound : List (Residue × Event) :=
  sampleNew :: (sampleResidue, .planificacion 1) :: comeAndGo 255 2
    ++ [sampleNew, (sampleResidue, .planificacion 1)]

/-- A round with room for it takes up the oldest program, if that is the sample's. -/
theorem sampleAdmission_taken (k : State) (pcb : Pcb) (pcbNew : List Pcb)
    (codesMs : List (List UInt8)) (hnew : k.pcbNew = pcb :: pcbNew) (hstack : pcb.stack = [])
    (hcodes : k.codesMs = [97, 61, 49, 10] :: codesMs) (hroom : k.hasRoom)
    (hcpus : k.cpuConectadas = []) :
    ∃ u, k.serve sampleParser sampleConfig (sampleResidue, .planificacion 1) = some u
      ∧ 0 < occurrences pcb.idProcess u.system
      ∧ ∀ pid, 0 < occurrences pid k.system → 0 < occurrences pid u.system := by
  have hadm : (admitir sampleConfig k sampleResidue 1).isSome := by
    have hlevel : (k.pcbReady.length + k.pcbExec.length + k.pcbBlock.length : Int)
        < k.multipgLevel := by simpa [State.hasRoom] using hroom
    have hpages : requestedPages sampleConfig ([97, 61, 49, 10] : List UInt8).length = 2 := by
      decide
    have hcode : (2 : Int) - sampleConfig.stackSize = 1 := by decide
    have hlast : pageBytes sampleConfig ([97, 61, 49, 10] : List UInt8).length 1 0 = 0 := by
      decide
    simp only [admitir, hnew, hcodes, if_pos hlevel, hpages, hcode, ne_eq, one_ne_zero,
      not_false_eq_true, if_true, Int.toNat_one, storeCode, storePage, hlast]
    rw [if_neg (by decide)]
    simp only [storeStack, hstack]
    rw [if_neg (by decide)]
    rfl
  rcases Option.isSome_iff_exists.mp hadm with ⟨k₁, hk₁⟩
  have hdespachar : despachar sampleResidue k₁ k₁.pcbReady k₁.cpuConectadas = some k₁ := by
    rcases admitir_wire sampleConfig k k₁ sampleResidue 1 pcb pcbNew _ codesMs hnew hcodes
      (by simpa [State.hasRoom] using hroom) (by decide) hk₁ with ⟨-, hsame, -⟩
    rw [hsame, hcpus]
    cases k₁.pcbReady with
    | nil => rfl
    | cons first ready => rfl
  have hserve : k.serve sampleParser sampleConfig (sampleResidue, .planificacion 1) = some k₁ := by
    simp only [State.serve, State.step, planificacion, hk₁, hdespachar]
  have hmoves := moves_planificacion sampleConfig k k₁ sampleResidue 1 hserve
  refine ⟨k₁, hserve, hmoves.admitted pcb.idProcess ?_, fun pid hpid => ?_⟩
  · simp [admission, hroom, hnew]
  · exact hmoves.kept pid hpid List.not_mem_nil

theorem sampleRound_begins :
    (run (State.serve sampleParser sampleConfig) (State.init 2 4 [] 0)
      [sampleNew, (sampleResidue, .planificacion 1)]).isSome := by
  decide

/-- The program that was admitted first is there still when the next one is. -/
theorem sampleRound_collides :
    ∃ u, run (State.serve sampleParser sampleConfig) (State.init 2 4 [] 0) sampleRound = some u
      ∧ 0 < occurrences 1 u.system ∧ 0 < occurrences 257 u.system := by
  have hbegin := (Option.some_get sampleRound_begins).symm
  generalize hk : (run (State.serve sampleParser sampleConfig) (State.init 2 4 [] 0)
      [sampleNew, (sampleResidue, .planificacion 1)]).get sampleRound_begins = k at hbegin
  have hfirst : k.generatorPid = 1 ∧ k.pcbNew = [] ∧ k.multipgLevel = 2 ∧ k.cpuConectadas = []
      ∧ k.codesMs = [] ∧ k.system.map (fun pcb => pcb.idProcess) = [1] := by
    subst hk
    decide
  rcases hfirst with ⟨hgen, hnew, hlevel, hcpus, hcodes, hsystem⟩
  -- 255 programs come and go.
  have hold : ∀ pcb ∈ k.system, pcb.idProcess ≤ k.generatorPid := by
    intro pcb hpcb
    have hmem := List.mem_map_of_mem (f := fun pcb : Pcb => pcb.idProcess) hpcb
    rw [hsystem, List.mem_singleton] at hmem
    omega
  rcases comeAndGo_run 255 k (by omega) (by rw [hgen]; decide) hnew hold with ⟨v, hv, hleft⟩
  have hsystem' : v.system = k.system := by
    rw [State.system, hleft.ready, hleft.exec, hleft.block, State.system]
  -- The next number is 257.
  have hgen' : v.generatorPid = 256 := by
    rw [hleft.generator, hgen]
    rfl
  rcases Option.isSome_iff_exists.mp (sampleNew_taken v (by rw [hgen']; decide)) with ⟨w, hw⟩
  rcases gestionDatosNewPcb_cases sampleParser sampleConfig v w sampleResidue _ 5 hw with
    ⟨pcb, consolas, wire, hpid, hstack, -, heq⟩
  have hsystem'' : w.system = k.system := by
    rw [← hsystem', heq]
    rfl
  have hroom : w.hasRoom := by
    have hlen := congrArg List.length hsystem
    rw [List.length_map, List.length_singleton] at hlen
    have hlevel' : w.multipgLevel = 2 := by
      rw [heq]
      exact hleft.level.trans hlevel
    rw [hasRoom_iff, hsystem'', hlen, hlevel']
    decide
  rcases sampleAdmission_taken w pcb [] (List.replicate 254 [97, 61, 49, 10] ++ [[97, 61, 49, 10]])
    (by rw [heq]; simp only [hleft.new]; rfl) hstack
    (by rw [heq]; simp only [hleft.codes, hcodes]; rfl) hroom
    (by rw [heq]; exact hleft.cpus.trans hcpus) with ⟨u, hu, hlast, hkept⟩
  refine ⟨u, ?_, hkept 1 ?_, ?_⟩
  · unfold sampleRound
    rw [run_append]
    refine ⟨v, ?_, ?_⟩
    · have hsplit := (run_append (State.serve sampleParser sampleConfig) (State.init 2 4 [] 0) v
        [sampleNew, (sampleResidue, .planificacion 1)] (comeAndGo 255 2)).mpr ⟨k, hbegin, by
          rw [hgen] at hv
          exact hv⟩
      exact hsplit
    · exact (run_cons _ _ _ _ _).mpr ⟨w, hw, (run_cons _ _ _ _ _).mpr ⟨u, hu, rfl⟩⟩
  · rw [hsystem'', occurrences, List.countP_pos_iff]
    have hmem : (1 : Int) ∈ k.system.map fun pcb => pcb.idProcess := by simp [hsystem]
    rcases List.mem_map.mp hmem with ⟨first, hin, hid⟩
    exact ⟨first, hin, by simp [hid]⟩
  · rw [hpid, hgen'] at hlast
    exact hlast

/-- The first program and the 257th are in the system together, and the memory server takes
    them for one. -/
theorem pid_comes_round :
    ¬ ∀ (parser : Parser) (config : Config) (multipgLevel memfd : Int) (semInit : List Int)
        (shared : Nat) (es : List (Residue × Event)) (t : State),
      run (State.serve parser config) (State.init multipgLevel memfd semInit shared) es = some t →
      Throughout (State.serve parser config) Identified
        (State.init multipgLevel memfd semInit shared) es := by
  intro hall
  rcases sampleRound_collides with ⟨u, hrun, hfirst, hlast⟩
  have hend := throughout_last _ _ _ _ _ (hall _ _ _ _ _ _ _ _ hrun) hrun
  exact ((identified_iff u).mp hend).2 1 257 hfirst hlast (by decide) rfl

end Kernel

end Esther
