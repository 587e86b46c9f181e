import Esther.Theory.Identity

/-!
# The Pages of the Processes

The kernel and the memory server together, and whether the frames that are taken are those
of the processes in the system.

Nothing in either program says so. The server gives frames when it is asked to and takes
them back when it is told that a process has ended; the kernel asks when it admits a
program and tells when `end_program` is called. The two agree as long as those are the only
ways into the system and out of it.

The command `kill` is a way out of it without `end_program`, so that the frames of the
process stay taken for good. A message about a shared variable is another.

A step of the two is a step of the kernel, with everything it sends handled by `cli_thread`
before the next. The number of a process fits in a byte here; what happens when it does
not is the subject of `Esther.Theory.Identity`.

## Main definitions

* `Owns`: A process has a frame.
* `answerAll`: The server handles packets until there are none.
* `Joint`, `serveMemoria`: The kernel and the memory server.
* `Accounted`: The owners of frames are the processes in the system.
* `InByte`: The domain of what follows.
* `PageKeeps`: The steps by which nobody enters or leaves the system unnoticed.

## Theorems

* `answerAll_iniPro`, `answerAll_finpros`: The server, on what the kernel sends.
* `serveMemoria_taken`: The server handles everything a step sends.
* `owns_serveMemoria`: The owners of frames after a step.
* `accounted_throughout`: They are the processes in the system, in all states of a run.
* `killed_process_keeps_pages`: A run at the end of which they are not.
-/

namespace Esther

namespace Memoria

open Cells Serial Kernel

/-- The process has a frame. -/
def Owns (table : PageTable) (pid : Int) : Prop := 0 < pid ∧ ∃ row ∈ table, row.pid = pid

instance (table : PageTable) (pid : Int) : Decidable (Owns table pid) :=
  inferInstanceAs (Decidable (0 < pid ∧ ∃ row ∈ table, row.pid = pid))

/-- The server handles packets in as many rounds as it takes, each with some bytes behind
    the payloads. -/
def answerAll (heap : Nat → Buf × Buf) : Nat → ServerState → Connection → List Packet →
    Option (ServerState × Connection)
  | _, server, conn, [] => some (server, conn)
  | 0, _, _, _ :: _ => none
  | n + 1, server, conn, packet :: rest =>
      match cliThread server conn (heap n).1 (heap n).2 (packet :: rest) with
      | some (.replied server conn _ rest) => answerAll heap n server conn rest
      | _ => none

/-- Stores, each with the packet that has its bytes. -/
inductive Stores : List Packet → Prop
  | nil : Stores []
  | store (packet data : Packet) (rest : List Packet)
      (hop : packet.header.opcode = .OP_ME_ALMBYTPAG) (hrest : Stores rest) :
      Stores (packet :: data :: rest)

/-- The number in the reply to a request for pages. -/
def answer (table : PageTable) (packet : Packet) (heap : Buf) : Int :=
  (setPages table packet.usrpid (unpacki16 (packet.pointer heap) 0)).2

section Owners

theorem owns_iff_marks (table : PageTable) (pid : Int) :
    Owns table pid ↔ 0 < pid ∧ ∃ page, true ∈ marks table pid page := by
  unfold Owns marks
  refine and_congr_right fun _ => ⟨?_, ?_⟩
  · rintro ⟨row, hrow, hpid⟩
    refine ⟨row.page, List.mem_map.mpr ⟨row, hrow, ?_⟩⟩
    simp [hpid]
  · rintro ⟨page, hmark⟩
    rcases List.mem_map.mp hmark with ⟨row, hrow, heq⟩
    rw [Bool.and_eq_true, beq_iff_eq] at heq
    exact ⟨row, hrow, heq.1⟩

theorem owns_getPageTable (rows : Nat) (pid : Int) : ¬ Owns (getPageTable rows) pid := by
  rintro ⟨hpos, row, hrow, hpid⟩
  rw [getPageTable] at hrow
  rw [(List.mem_replicate.mp hrow).2] at hpid
  simp only at hpid
  omega

/-- Clearing takes the frames of one process. -/
theorem owns_clearPages (table : PageTable) (pid q : Int) (hpid : 0 < pid) :
    Owns (clearPages table pid).1 q ↔ Owns table q ∧ q ≠ pid := by
  by_cases hq : q = pid
  · refine ⟨fun h => ?_, fun h => absurd hq h.2⟩
    rcases h.2 with ⟨row, hrow, hrow'⟩
    exact absurd (hrow'.trans hq) (clearPages_none table pid hpid row hrow)
  · simp only [owns_iff_marks, ne_eq, hq, not_false_eq_true, and_true]
    refine and_congr_right fun hpos => exists_congr fun page => ?_
    rw [marks_clearPages_of_ne pid q page hq (by omega)]

/-- There is a free frame for the first page. -/
theorem exists_assignPages (table : PageTable) (pid : Int) (n : Nat) (hn : 0 < n)
    (hfree : n ≤ freeRows table) : ∃ row ∈ assignPages pid table n, row.pid = pid := by
  induction table with
  | nil =>
      simp only [freeRows, List.countP_nil] at hfree
      omega
  | cons row table ih =>
      rcases Nat.exists_eq_add_of_lt hn with ⟨m, hm⟩
      obtain rfl : n = m + 1 := by omega
      rw [freeRows_cons] at hfree
      -- A free row is taken for the process, one in use leaves the search to the rest.
      by_cases hz : row.pid = 0
      · rw [assignPages, if_pos (beq_iff_eq.mpr hz)]
        exact ⟨_, List.mem_cons_self, rfl⟩
      · rw [if_neg hz] at hfree
        rw [assignPages, if_neg (by rwa [beq_iff_eq])]
        rcases ih hfree with ⟨new, hnew, hpid⟩
        exact ⟨new, List.mem_cons_of_mem _ hnew, hpid⟩

/-- A request that is granted makes its process an owner, and one that is not leaves the
    owners as they are. -/
theorem owns_setPages (table : PageTable) (pid pages q : Int) :
    Owns (setPages table pid pages).1 q
      ↔ Owns table q ∨ ((setPages table pid pages).2 ≠ 0 ∧ q = pid) := by
  by_cases hres : (setPages table pid pages).2 = 0
  · rw [setPages_refused table pid pages hres]
    simp [hres]
  · rcases setPages_granted table pid pages hres with ⟨hpid, hpages, hfree, htable⟩
    by_cases hq : q = pid
    · refine iff_of_true ⟨by omega, ?_⟩ (Or.inr ⟨hres, hq⟩)
      rw [htable, hq]
      exact exists_assignPages table pid pages.toNat (by omega) (by omega)
    · simp only [owns_iff_marks, hq, and_false, or_false]
      refine and_congr_right fun hpos => exists_congr fun page => ?_
      rw [marks_setPages_of_ne pid q page pages hq (by omega)]

end Owners

section Answers

/-- One round. -/
theorem answerAll_round (heap : Nat → Buf × Buf) (n : Nat) (server server' : ServerState)
    (conn conn' : Connection) (packet reply : Packet) (rest rest' : List Packet)
    (h : cliThread server conn (heap n).1 (heap n).2 (packet :: rest)
      = some (.replied server' conn' reply rest')) :
    answerAll heap (n + 1) server conn (packet :: rest)
      = answerAll heap n server' conn' rest' := by
  rw [answerAll, h]

theorem answerAll_done (heap : Nat → Buf × Buf) (n : Nat) (server : ServerState)
    (conn : Connection) : answerAll heap n server conn [] = some (server, conn) := by
  cases n with
  | zero => rfl
  | succ n => rfl

/-- Stores are answered together with their bytes, and leave the page table alone. -/
theorem answerAll_stores (heap : Nat → Buf × Buf) (packets : List Packet) (h : Stores packets)
    (n : Nat) (server : ServerState) (conn : Connection) (hfuel : packets.length ≤ n) :
    ∃ server' conn', answerAll heap n server conn packets = some (server', conn')
      ∧ server'.pageTable = server.pageTable := by
  induction h generalizing n server conn with
  | nil => exact ⟨server, conn, answerAll_done heap n server conn, rfl⟩
  | store packet data rest hop _ ih =>
      simp only [List.length_cons] at hfuel
      rcases Nat.exists_eq_add_of_lt (by omega : 0 < n) with ⟨m, hm⟩
      obtain rfl : n = m + 1 := by omega
      -- A store takes two packets and leaves the table alone.
      have hround : cliThread server conn (heap m).1 (heap m).2 (packet :: data :: rest)
          = some (.replied (almBytPag server conn (heap m).1 packet (heap m).2 data).1
            (almBytPag server conn (heap m).1 packet (heap m).2 data).2.1
            (almBytPag server conn (heap m).1 packet (heap m).2 data).2.2 rest) := by
        simp only [cliThread, hop]
      rcases ih m (almBytPag server conn (heap m).1 packet (heap m).2 data).1
        (almBytPag server conn (heap m).1 packet (heap m).2 data).2.1 (by omega) with
        ⟨server', conn', heq, htable⟩
      refine ⟨server', conn', ?_, htable.trans (almBytPag_pageTable _ _ _ _ _ _)⟩
      rw [answerAll_round heap m server _ conn _ packet _ _ rest hround]
      exact heq

theorem stores_codePackets (config : Kernel.Config) (r : Residue) (pcb : Pcb) (code : List UInt8)
    (n : Nat) (pag tam : Int) (rest : List Packet) (hrest : Stores rest) :
    Stores (codePackets config r pcb code n pag tam ++ rest) := by
  induction n generalizing pag tam with
  | zero => exact hrest
  | succ n ih => exact Stores.store _ _ _ rfl (ih _ _)

/-- A request for pages, with stores behind it. -/
theorem answerAll_iniPro (heap : Nat → Buf × Buf) (n : Nat) (server : ServerState)
    (conn : Connection) (packet : Packet) (rest : List Packet)
    (hop : packet.header.opcode = .OP_ME_INIPRO) (hrest : Stores rest) (hfuel : rest.length ≤ n) :
    ∃ server' conn', answerAll heap (n + 1) server conn (packet :: rest) = some (server', conn')
      ∧ server'.pageTable = (setPages server.pageTable packet.usrpid
          (unpacki16 (packet.pointer (heap n).1) 0)).1 := by
  have hround : cliThread server conn (heap n).1 (heap n).2 (packet :: rest)
      = some (.replied (iniPro server conn (heap n).1 packet).1
        (iniPro server conn (heap n).1 packet).2.1 (iniPro server conn (heap n).1 packet).2.2 rest) := by
    simp only [cliThread, hop]
  rcases answerAll_stores heap rest hrest n (iniPro server conn (heap n).1 packet).1
    (iniPro server conn (heap n).1 packet).2.1 hfuel with ⟨server', conn', heq, htable⟩
  refine ⟨server', conn', ?_, htable⟩
  rw [answerAll_round heap n server _ conn _ packet _ rest rest hround]
  exact heq

/-- The server forgets the programs that have ended. -/
theorem answerAll_finpros (heap : Nat → Buf × Buf) (r : Residue) (code : Int) (pids : List Int)
    (n : Nat) (server : ServerState) (conn : Connection) (hfuel : pids.length ≤ n) :
    ∃ server' conn', answerAll heap n server conn (pids.map (finproPacket r code))
        = some (server', conn')
      ∧ server'.pageTable
        = pids.foldl (fun table pid => (clearPages table (byte pid).toNat).1) server.pageTable := by
  induction pids generalizing n server conn with
  | nil =>
      exact ⟨server, conn, answerAll_done heap n server conn, rfl⟩
  | cons pid pids ih =>
      rw [List.length_cons] at hfuel
      rcases Nat.exists_eq_add_of_lt (by omega : 0 < n) with ⟨m, hm⟩
      obtain rfl : n = m + 1 := by omega
      have hround : cliThread server conn (heap m).1 (heap m).2
            (finproPacket r code pid :: pids.map (finproPacket r code))
          = some (.replied (finPro server conn (finproPacket r code pid)).1
            (finPro server conn (finproPacket r code pid)).2.1
            (finPro server conn (finproPacket r code pid)).2.2
            (pids.map (finproPacket r code))) := rfl
      -- The first message is answered, and the induction is over the others.
      rcases ih m (finPro server conn (finproPacket r code pid)).1
        (finPro server conn (finproPacket r code pid)).2.1 (by omega) with
        ⟨server', conn', heq, htable⟩
      refine ⟨server', conn', ?_, htable⟩
      rw [List.map_cons, answerAll_round heap m server _ conn _ _ _ _ _ hround]
      exact heq

/-- The owners that are left. -/
theorem owns_foldl_clearPages (pids : List Int) (table : PageTable) (q : Int)
    (hpids : ∀ pid ∈ pids, byte pid ≠ 0) :
    Owns (pids.foldl (fun table pid => (clearPages table (byte pid).toNat).1) table) q
      ↔ Owns table q ∧ ∀ pid ∈ pids, q ≠ (byte pid).toNat := by
  induction pids generalizing table with
  | nil => simp
  | cons pid pids ih =>
      have hpos := (toNat_byte_pos pid).mpr (hpids pid List.mem_cons_self)
      rw [List.foldl_cons, ih _ fun other hother => hpids other (List.mem_cons_of_mem _ hother),
        owns_clearPages table _ q hpos, and_assoc]
      simp only [List.mem_cons, forall_eq_or_imp]

end Answers

end Memoria

namespace Kernel

open Cells Serial Transition Memoria

/-- The kernel, the memory server, and the server's side of their connection. -/
structure Joint where
  kernel : State
  server : ServerState
  conn : Connection

/-- The answer a round goes by is the one the server gives. -/
def Answered (table : PageTable) (heap : Buf) (sent : List Packet) : Event → Prop
  | .planificacion res => ∀ packet ∈ sent.head?, res = answer table packet heap
  | _ => True

instance decidableAnswered (table : PageTable) (heap : Buf) (sent : List Packet) :
    (e : Event) → Decidable (Answered table heap sent e)
  | .planificacion res =>
      inferInstanceAs (Decidable (∀ packet ∈ sent.head?, res = answer table packet heap))
  | .connectConsole _ => .isTrue trivial
  | .connectCpu _ => .isTrue trivial
  | .newProgram _ _ => .isTrue trivial
  | .syscall _ _ _ => .isTrue trivial
  | .destroyConsole _ => .isTrue trivial
  | .kill _ => .isTrue trivial

/-- A step of the kernel, with everything it sends handled by the server. -/
def serveMemoria (parser : Parser) (config : Config) (s : Joint)
    (e : (Residue × Event) × (Nat → Buf × Buf)) : Option Joint :=
  match s.kernel.serve parser config e.1 with
  | none => none
  | some u =>
      let sent := u.requested.drop s.kernel.requested.length
      if Answered s.server.pageTable (e.2 (sent.length - 1)).1 sent e.1.2 then
        (answerAll e.2 sent.length s.server s.conn sent).map fun answered =>
          { kernel := u, server := answered.1, conn := answered.2 }
      else none

/-- The owners of frames are the processes in the system. -/
def Accounted (s : Joint) : Prop :=
  ∀ pid, Owns s.server.pageTable pid ↔ 0 < occurrences pid s.kernel.system

/-- The numbers a step gives or is told. -/
def numbers (k : State) (e : Residue × Event) : List Int :=
  match e.2 with
  | .newProgram _ _ => [k.generatorPid + 1]
  | .syscall _ packet _ => [syscallPid e.1 packet]
  | _ => []

/-- The numbers of a step are positive and fit in a byte. -/
def InByte (s : Joint) (e : (Residue × Event) × (Nat → Buf × Buf)) : Prop :=
  ∀ pid ∈ numbers s.kernel e.1, 1 ≤ pid ∧ pid ≤ 255

/-- The numbers of all processes are positive and fit in a byte. -/
def PidsInByte (k : State) : Prop := ∀ pid, 0 < k.total pid → 1 ≤ pid ∧ pid ≤ 255

/-- Nobody in `pcb_ready` or `pcb_block` is killed. -/
def KillKeeps (k : State) (e : Residue × Event) : Prop :=
  match e.2 with
  | .kill pid => occurrences pid k.pcbReady = 0 ∧ occurrences pid k.pcbBlock = 0
  | _ => True

/-- The steps by which nobody enters or leaves the system without the server. -/
def PageKeeps (config : Config) (k : State) (e : Residue × Event) : Prop :=
  SlotKeeps config k e ∧ KillKeeps k e

/-- The two programs at start-up. -/
def Joint.init (multipgLevel memfd : Int) (semInit : List Int) (shared : Nat) (marcoSize : Int)
    (marcos : Nat) (main : Buf) (conn : Connection) : Joint :=
  { kernel := State.init multipgLevel memfd semInit shared
    server := { marcoSize := marcoSize, pageTable := getPageTable marcos, main := main }
    conn := conn }

instance (s : Joint) (e : (Residue × Event) × (Nat → Buf × Buf)) : Decidable (InByte s e) :=
  inferInstanceAs (Decidable (∀ pid ∈ numbers s.kernel e.1, 1 ≤ pid ∧ pid ≤ 255))

instance decidableKillKeeps (k : State) : (e : Residue × Event) → Decidable (KillKeeps k e)
  | (_, .kill pid) =>
      inferInstanceAs (Decidable (occurrences pid k.pcbReady = 0 ∧ occurrences pid k.pcbBlock = 0))
  | (_, .connectConsole _) => .isTrue trivial
  | (_, .connectCpu _) => .isTrue trivial
  | (_, .newProgram _ _) => .isTrue trivial
  | (_, .planificacion _) => .isTrue trivial
  | (_, .syscall _ _ _) => .isTrue trivial
  | (_, .destroyConsole _) => .isTrue trivial

instance (config : Config) (k : State) (e : Residue × Event) : Decidable (PageKeeps config k e) :=
  inferInstanceAs (Decidable (SlotKeeps config k e ∧ KillKeeps k e))

section Server

theorem toNat_byte (pid : Int) (hlo : 1 ≤ pid) (hhi : pid ≤ 255) : ((byte pid).toNat : Int) = pid := by
  rw [byte, UInt8.toNat_ofNat']
  omega

/-- The server handles everything a step sends, and the owners of frames afterwards are
    those of before without the processes that have ended, and the one that is admitted. -/
theorem answerAll_traffic (parser : Parser) (config : Config) (k u : State) (e : Residue × Event)
    (h : k.serve parser config e = some u) (heap : Nat → Buf × Buf) (server : ServerState)
    (conn : Connection) (hbytes : ∀ pid ∈ endings k e, byte pid ≠ 0)
    (hanswered : Answered server.pageTable (heap ((traffic config k e).length - 1)).1
      (traffic config k e) e.2) :
    ∃ server' conn', answerAll heap (traffic config k e).length server conn (traffic config k e)
        = some (server', conn')
      ∧ ∀ q, Owns server'.pageTable q
        ↔ (Owns server.pageTable q ∧ ∀ pid ∈ endings k e, q ≠ (byte pid).toNat)
          ∨ ∃ pid ∈ admission k e, q = (byte pid).toNat := by
  -- Nothing is sent, and nobody is admitted or ended.
  have hquiet : traffic config k e = [] → endings k e = [] → admission k e = none →
      ∃ server' conn', answerAll heap (traffic config k e).length server conn (traffic config k e)
          = some (server', conn')
        ∧ ∀ q, Owns server'.pageTable q
          ↔ (Owns server.pageTable q ∧ ∀ pid ∈ endings k e, q ≠ (byte pid).toNat)
            ∨ ∃ pid ∈ admission k e, q = (byte pid).toNat := by
    intro htraffic hendings hadmission
    rw [htraffic, hendings, hadmission]
    exact ⟨server, conn, rfl, fun q => by simp⟩
  -- Programs end.
  have hends : ∀ code pids, endings k e = pids → admission k e = none →
      traffic config k e = pids.map (finproPacket e.1 code) →
      ∃ server' conn', answerAll heap (traffic config k e).length server conn (traffic config k e)
          = some (server', conn')
        ∧ ∀ q, Owns server'.pageTable q
          ↔ (Owns server.pageTable q ∧ ∀ pid ∈ endings k e, q ≠ (byte pid).toNat)
            ∨ ∃ pid ∈ admission k e, q = (byte pid).toNat := by
    intro code pids hendings hadmission htraffic
    rw [hendings] at hbytes
    rw [htraffic, hendings, hadmission, List.length_map]
    rcases answerAll_finpros heap e.1 code pids pids.length server conn (le_refl _) with
      ⟨server', conn', heq, htable⟩
    refine ⟨server', conn', heq, fun q => ?_⟩
    rw [htable, owns_foldl_clearPages pids server.pageTable q hbytes]
    simp
  rcases e with ⟨r, event⟩
  cases event with
  | connectConsole fd => exact hquiet rfl rfl rfl
  | connectCpu fd => exact hquiet rfl rfl rfl
  | newProgram console program => exact hquiet rfl rfl rfl
  | kill pid => exact hquiet rfl rfl rfl
  | destroyConsole client => exact hends exitConsoleKilled _ rfl rfl rfl
  | syscall cpu packet siguientes =>
      by_cases hop : packet.header.opcode = .OP_CPU_PROGRAM_END
      · refine hends exitSuccessful [syscallPid r packet] ?_ rfl ?_
        · simp only [endings, if_pos hop]
        · simp only [traffic, if_pos hop, List.map_cons, List.map_nil]
      · refine hquiet ?_ ?_ rfl
        · simp only [traffic, if_neg hop]
        · simp only [endings, if_neg hop]
  | planificacion res =>
      by_cases hidle : k.pcbNew = [] ∨ k.hasRoom = false
      · refine hquiet ?_ rfl ?_
        · rcases hidle with hnil | hfull
          · simp only [traffic, hnil]
          · cases hnew : k.pcbNew with
            | nil => simp only [traffic, hnew]
            | cons pcb pcbNew =>
                cases hcodes : k.codesMs with
                | nil => simp only [traffic, hnew, hcodes]
                | cons code codesMs => simp [traffic, hnew, hcodes, hfull]
        · rcases hidle with hnil | hfull
          · simp [admission, hnil]
          · simp [admission, hfull]
      · rw [not_or, Bool.not_eq_false] at hidle
        rcases hidle with ⟨hnonempty, hroom⟩
        rcases List.exists_cons_of_ne_nil hnonempty with ⟨pcb, pcbNew, hnew⟩
        -- A round that takes up a program finds its code.
        have hcodes : ∃ code codesMs, k.codesMs = code :: codesMs := by
          cases hcodes : k.codesMs with
          | nil =>
              have hlevel : (k.pcbReady.length + k.pcbExec.length + k.pcbBlock.length : Int)
                  < k.multipgLevel := by simpa [State.hasRoom] using hroom
              simp only [State.serve, State.step, planificacion, admitir, hnew, if_pos hlevel,
                hcodes] at h
              exact absurd h (by simp)
          | cons code codesMs => exact ⟨code, codesMs, rfl⟩
        rcases hcodes with ⟨code, codesMs, hcodes⟩
        have hsent : ∃ rest, Stores rest
            ∧ traffic config k (r, .planificacion res) = iniproPacket config r pcb code :: rest := by
          simp only [traffic, hnew, hcodes, hroom, if_true]
          by_cases hres : res ≠ 0
          · rw [if_pos hres]
            exact ⟨_, stores_codePackets config r _ code _ _ _ _
              (Stores.store _ _ [] rfl Stores.nil), rfl⟩
          · rw [if_neg hres]
            exact ⟨[], Stores.nil, rfl⟩
        rcases hsent with ⟨rest, hstores, hsent⟩
        rw [hsent] at hanswered ⊢
        simp only [List.length_cons, Nat.add_sub_cancel] at hanswered ⊢
        have hres : res = answer server.pageTable (iniproPacket config r pcb code)
            (heap rest.length).1 := hanswered _ rfl
        rcases answerAll_iniPro heap rest.length server conn (iniproPacket config r pcb code) rest
          rfl hstores (le_refl _) with ⟨server', conn', heq, htable⟩
        refine ⟨server', conn', heq, fun q => ?_⟩
        have hanswer : (setPages server.pageTable (iniproPacket config r pcb code).usrpid
            (unpacki16 ((iniproPacket config r pcb code).pointer (heap rest.length).1) 0)).2
            = res := hres.symm
        rw [htable, owns_setPages, hanswer]
        by_cases hzero : res = 0
        · simp [endings, admission, hzero]
        · simp only [endings, admission, hroom, hnew, hzero, ne_eq, not_false_eq_true, and_self,
            if_true, List.head?_cons, Option.map_some, true_and, List.not_mem_nil, false_implies,
            implies_true, and_true, Option.mem_def, Option.some.injEq, exists_eq_left']
          rfl

end Server

section Steps

/-- A step of the two programs. -/
theorem serveMemoria_cases (parser : Parser) (config : Config) (s t : Joint)
    (e : (Residue × Event) × (Nat → Buf × Buf)) (h : serveMemoria parser config s e = some t) :
    s.kernel.serve parser config e.1 = some t.kernel
      ∧ Answered s.server.pageTable (e.2 ((traffic config s.kernel e.1).length - 1)).1
        (traffic config s.kernel e.1) e.1.2
      ∧ answerAll e.2 (traffic config s.kernel e.1).length s.server s.conn
        (traffic config s.kernel e.1) = some (t.server, t.conn) := by
  unfold serveMemoria at h
  cases hserve : s.kernel.serve parser config e.1 with
  | none =>
      rw [hserve] at h
      exact absurd h (by simp)
  | some u =>
      -- What the memory is asked is what the event has put on the wire.
      have hsent : u.requested.drop s.kernel.requested.length = traffic config s.kernel e.1 := by
        rw [requested_serve parser config s.kernel u e.1 hserve, List.drop_left]
      simp only [hserve, hsent] at h
      split at h
      · rename_i hanswered
        rw [Option.map_eq_some_iff] at h
        rcases h with ⟨⟨server, conn⟩, hall, rfl⟩
        exact ⟨rfl, hanswered, hall⟩
      · exact absurd h (by simp)

/-- Who is in the system after a step by which nobody enters or leaves it unnoticed. -/
theorem system_serve_iff (parser : Parser) (config : Config) (k u : State) (e : Residue × Event)
    (hok : PageKeeps config k e) (h : k.serve parser config e = some u) (pid : Int) :
    0 < occurrences pid u.system
      ↔ (0 < occurrences pid k.system ∧ pid ∉ endings k e) ∨ pid ∈ admission k e := by
  have hmoves := moves_serve parser config k u e hok.1 h
  constructor
  · intro hpid
    rcases hmoves.origin pid hpid with hbefore | hadmitted
    · refine Or.inl ⟨hbefore, fun hended => ?_⟩
      have hnone := hmoves.departed pid hended
      omega
    · exact Or.inr hadmitted
  · rintro (⟨hbefore, hended⟩ | hadmitted)
    · rcases e with ⟨r, event⟩
      cases event with
      | kill killed =>
          -- Who is killed was not in the system.
          have hsystem : u.system = k.system := by
            rcases step_kill parser config k u r killed h with ⟨-, rfl⟩
            rw [State.system, State.system]
            simp only [terminalKill, (killIn_eq_self_iff killed k.pcbReady).mpr hok.2.1,
              (killIn_eq_self_iff killed k.pcbBlock).mpr hok.2.2]
          rw [hsystem]
          exact hbefore
      | connectConsole fd => exact hmoves.kept pid hbefore hended
      | connectCpu fd => exact hmoves.kept pid hbefore hended
      | newProgram console program => exact hmoves.kept pid hbefore hended
      | planificacion res => exact hmoves.kept pid hbefore hended
      | destroyConsole client => exact hmoves.kept pid hbefore hended
      | syscall cpu packet siguientes => exact hmoves.kept pid hbefore hended
    · exact hmoves.admitted pid hadmitted

/-- The processes there are after a message were there before, but for the one it is
    about. -/
theorem total_gestionSyscall (config : Config) (k u : State) (r : Residue) (cpu : Client)
    (packet : Packet) (siguientes rest : List Packet)
    (hok : SlotKeeps config k (r, .syscall cpu packet siguientes))
    (h : gestionSyscall config k r packet cpu siguientes = some (u, rest)) (pid : Int)
    (hpid : 0 < u.total pid) : 0 < k.total pid ∨ pid = syscallPid r packet := by
  by_cases hself : pid = syscallPid r packet
  · exact Or.inr hself
  left
  have hother : ¬ (syscallPcb r packet).idProcess = pid := fun hc => hself hc.symm
  have hleave := total_leaveExec k (syscallPid r packet) pid
  rw [if_neg fun hc : syscallPid r packet = pid => hself hc.symm] at hleave
  rcases gestionSyscall_cases config k u r cpu packet siguientes rest h with
    ⟨hop, rfl⟩ | ⟨hop, packetSem, rfl, hsem⟩ | ⟨hop, values, w, rfl⟩ | ⟨-, -, -, rfl⟩
  · have htotal := total_endProgram (k.leaveExec (syscallPid r packet)) r (syscallPcb r packet)
      exitSuccessful pid
    rw [if_neg hother] at htotal
    have hsame : (State.restoreCPU ((k.leaveExec (syscallPid r packet)).endProgram r
        (syscallPcb r packet) exitSuccessful) cpu).total pid
      = ((k.leaveExec (syscallPid r packet)).endProgram r (syscallPcb r packet)
        exitSuccessful).total pid := rfl
    omega
  · have hend : packet.header.opcode ≠ .OP_CPU_PROGRAM_END := by simp [hop]
    simp only [SlotKeeps, if_neg hend, if_pos hop] at hok
    rcases hsem with ⟨hwait, k₁, hsem, rfl⟩ | ⟨hwait, k₁, hsem, rfl⟩
    · have htotal := total_semWait _ _ _ _ hsem pid
      rw [if_neg hother] at htotal
      have hsame : (k₁.restoreCPU cpu).total pid = k₁.total pid := rfl
      omega
    · rcases semSignal_cases _ _ _ _ _ hsem with ⟨_, queue, _, _, -, hqueue, -, -⟩
      have hreturns := (hok.2 packetSem rfl).resolve_left hwait queue hqueue
      have hblocked : (k.leaveExec (syscallPid r packet)).blockedWith (syscallPcb r packet)
          (oldestRequest queue (syscallPcb r packet)).idProcess = true := hreturns.1
      have htotal := total_semSignal _ _ _ _ _ queue hqueue hsem hblocked pid
      have hsame : (k₁.restoreCPU cpu).total pid = k₁.total pid := rfl
      rw [hreturns.2, readBehind_idProcess r queue _ hreturns.2, if_neg hother] at htotal
      -- The process that is woken was blocked.
      have hwoken : (oldestRequest queue (syscallPcb r packet)).idProcess = pid →
          0 < occurrences pid k.pcbBlock := by
        intro hc
        have hpos := (occurrences_pos _ _).mpr hreturns.1
        rw [hc, occurrences_append, occurrences_cons, occurrences_nil, if_neg hother] at hpos
        omega
      have hle : occurrences pid k.pcbBlock ≤ k.total pid := by
        unfold State.total
        omega
      by_cases hhead : (oldestRequest queue (syscallPcb r packet)).idProcess = pid
      · have hpos := hwoken hhead
        omega
      · rw [if_neg hhead, if_neg hhead] at htotal
        omega
  · have hsame : (State.restoreCPU { k.leaveExec (syscallPid r packet) with
        sharedValues := values
        wire := w } cpu).total pid = (k.leaveExec (syscallPid r packet)).total pid := rfl
    omega
  · omega

/-- Every process there is was there before, or the step gives it its number or is told
    it. -/
theorem total_origin (parser : Parser) (config : Config) (k u : State) (e : Residue × Event)
    (hok : SlotKeeps config k e) (h : k.serve parser config e = some u) (pid : Int)
    (hpid : 0 < u.total pid) : 0 < k.total pid ∨ pid ∈ numbers k e := by
  rcases e with ⟨r, event⟩
  cases event with
  | connectConsole fd =>
      rw [step_connectConsole parser config k u r fd h] at hpid
      exact Or.inl hpid
  | connectCpu fd =>
      rw [step_connectCpu parser config k u r fd h] at hpid
      exact Or.inl hpid
  | newProgram console program =>
      rcases gestionDatosNewPcb_cases parser config k u r program console h with
        ⟨pcb, _, _, hnumber, -, -, rfl⟩
      -- The program that comes in has the next number.
      by_cases hnew : pid = k.generatorPid + 1
      · exact Or.inr (List.mem_singleton.mpr hnew)
      · left
        have hother : ¬ pcb.idProcess = pid := fun hc => hnew (hc.symm.trans hnumber)
        simp only [State.total, occurrences_append, occurrences_cons, occurrences_nil,
          if_neg hother] at hpid ⊢
        omega
  | planificacion res =>
      exact Or.inl ((total_planificacion config k u r res h).2 pid ▸ hpid)
  | destroyConsole client =>
      left
      rcases destroyConsole_eq k r client with ⟨_, ended, _, _, heq, hended, -⟩
      rw [step_destroyConsole parser config k u r client h, heq] at hpid
      -- What a program that ends loses elsewhere, it gains in `pcb_exit`.
      simp only [State.total, occurrences_append, occurrences_without, hended] at hpid ⊢
      by_cases hdoomed : pid ∈ doomed k client.pids
      · have hends := (List.mem_filter.mp hdoomed).2
        rw [ends_iff] at hends
        omega
      · simp only [if_neg hdoomed] at hpid
        omega
  | kill killed =>
      rcases step_kill parser config k u r killed h with ⟨-, rfl⟩
      rw [total_terminalKill] at hpid
      exact Or.inl hpid
  | syscall cpu packet siguientes =>
      rcases serve_syscall parser config k u r cpu packet siguientes h with ⟨rest, hsyscall⟩
      rcases total_gestionSyscall config k u r cpu packet siguientes rest hok hsyscall pid hpid with
        hbefore | hself
      · exact Or.inl hbefore
      · exact Or.inr (List.mem_singleton.mpr hself)

/-- Who is ended was somewhere, or the step is told its number. -/
theorem endings_range (k : State) (e : Residue × Event) (hrange : PidsInByte k)
    (hbyte : ∀ pid ∈ numbers k e, 1 ≤ pid ∧ pid ≤ 255) (pid : Int) (hpid : pid ∈ endings k e) :
    1 ≤ pid ∧ pid ≤ 255 := by
  rcases e with ⟨r, event⟩
  cases event with
  | syscall cpu packet siguientes =>
      simp only [endings] at hpid
      split at hpid
      · exact hbyte pid hpid
      · exact absurd hpid List.not_mem_nil
  | destroyConsole client =>
      have hends := (List.mem_filter.mp hpid).2
      rw [ends_iff] at hends
      -- A process of the console is in one of the queues, where every number is in range.
      refine hrange pid ?_
      unfold State.total
      omega
  | connectConsole fd => exact absurd hpid List.not_mem_nil
  | connectCpu fd => exact absurd hpid List.not_mem_nil
  | newProgram console program => exact absurd hpid List.not_mem_nil
  | planificacion res => exact absurd hpid List.not_mem_nil
  | kill killed => exact absurd hpid List.not_mem_nil

/-- The owners of frames stay the processes in the system. -/
theorem accounted_step (parser : Parser) (config : Config) (s t : Joint)
    (e : (Residue × Event) × (Nat → Buf × Buf)) (hs : Accounted s ∧ PidsInByte s.kernel)
    (hbyte : InByte s e) (hok : PageKeeps config s.kernel e.1) (h : serveMemoria parser config s e = some t) :
    Accounted t ∧ PidsInByte t.kernel := by
  rcases serveMemoria_cases parser config s t e h with ⟨hserve, hanswered, hall⟩
  rcases hs with ⟨haccounted, hrange⟩
  have hrange' : PidsInByte t.kernel := by
    intro pid hpid
    rcases total_origin parser config s.kernel t.kernel e.1 hok.1 hserve pid hpid with
      hbefore | hnumber
    · exact hrange pid hbefore
    · exact hbyte pid hnumber
  refine ⟨?_, hrange'⟩
  -- Numbers that fit a byte are told apart by the byte the frames are marked with.
  have hended : ∀ pid ∈ endings s.kernel e.1, 1 ≤ pid ∧ pid ≤ 255 := by
    intro pid hpid
    refine endings_range s.kernel e.1 hrange hbyte pid hpid
  have hadmitted : ∀ pid ∈ admission s.kernel e.1, 1 ≤ pid ∧ pid ≤ 255 := by
    intro pid hpid
    refine hrange' pid ?_
    have hin := (system_serve_iff parser config s.kernel t.kernel e.1 hok hserve pid).mpr
      (Or.inr hpid)
    rw [occurrences_system] at hin
    unfold State.total
    omega
  have hvalid : ∀ pid : Int, 1 ≤ pid ∧ pid ≤ 255 → byte pid ≠ 0 := by
    rintro pid ⟨hlo, hhi⟩
    rw [← toNat_byte_pos, toNat_byte pid hlo hhi]
    omega
  rcases answerAll_traffic parser config s.kernel t.kernel e.1 hserve e.2 s.server s.conn
    (fun pid hpid => hvalid pid (hended pid hpid)) hanswered with ⟨server', conn', heq, howns⟩
  rw [hall, Option.some.injEq, Prod.mk.injEq] at heq
  intro pid
  -- Both sides are "as before, less who ended, and who was admitted".
  rw [heq.1, howns, system_serve_iff parser config s.kernel t.kernel e.1 hok hserve,
    haccounted pid]
  refine or_congr (and_congr_right fun _ => ⟨fun hall hin => ?_, fun hout other hother hc => ?_⟩) ?_
  · exact hall pid hin (toNat_byte pid (hended pid hin).1 (hended pid hin).2).symm
  · rw [toNat_byte other (hended other hother).1 (hended other hother).2] at hc
    exact hout (hc ▸ hother)
  · constructor
    · rintro ⟨other, hother, hc⟩
      rw [toNat_byte other (hadmitted other hother).1 (hadmitted other hother).2] at hc
      rw [hc]
      exact hother
    · intro hin
      exact ⟨pid, hin, (toNat_byte pid (hadmitted pid hin).1 (hadmitted pid hin).2).symm⟩

end Steps

theorem accounted_init (multipgLevel memfd : Int) (semInit : List Int) (shared : Nat)
    (marcoSize : Int) (marcos : Nat) (main : Buf) (conn : Connection) :
    Accounted (Joint.init multipgLevel memfd semInit shared marcoSize marcos main conn)
      ∧ PidsInByte (State.init multipgLevel memfd semInit shared) := by
  refine ⟨fun pid => iff_of_false (owns_getPageTable marcos pid) ?_, fun pid hpid => ?_⟩
  · exact Nat.lt_irrefl 0
  · exact absurd hpid (Nat.lt_irrefl 0)

/-- In a run of the kernel and the memory server from start-up, with the numbers of the
    processes between 1 and 255, the processes that own frames are those in the system after
    every step, if by no step a process enters or leaves the system unnoticed. -/
theorem accounted_throughout (parser : Parser) (config : Config) (multipgLevel memfd : Int)
    (semInit : List Int) (shared : Nat) (marcoSize : Int) (marcos : Nat) (main : Buf)
    (conn : Connection) (es : List ((Residue × Event) × (Nat → Buf × Buf)))
    (hbyte : Along (serveMemoria parser config) InByte
      (Joint.init multipgLevel memfd semInit shared marcoSize marcos main conn) es)
    (hok : Along (serveMemoria parser config) (fun s e => PageKeeps config s.kernel e.1)
      (Joint.init multipgLevel memfd semInit shared marcoSize marcos main conn) es) :
    Throughout (serveMemoria parser config) Accounted
      (Joint.init multipgLevel memfd semInit shared marcoSize marcos main conn) es := by
  have hinv := throughout_invariant_along (serveMemoria parser config)
    (fun s e => InByte s e ∧ PageKeeps config s.kernel e.1)
    (fun s => Accounted s ∧ PidsInByte s.kernel)
    (fun s e t hs hboth h => accounted_step parser config s t e hs hboth.1 hboth.2 h) _ es
    (accounted_init multipgLevel memfd semInit shared marcoSize marcos main conn)
    (along_and _ _ _ _ _ hbyte hok)
  exact throughout_mono _ _ _ (fun s hs => hs.1) _ es hinv

set_option maxRecDepth 2000

/-- Two frames, a level of three, and a connection that has been greeted. -/
def sampleJoint : Joint :=
  Joint.init 3 4 [2] 1 4 2 (fun _ => 0)
    { header := protocolHeader .KERNEL .OP_HANDSHAKE, buffer := fun _ => 0 }

/-- With nothing behind the payloads. -/
def served (es : List (Residue × Event)) : List ((Residue × Event) × (Nat → Buf × Buf)) :=
  es.map fun e => (e, fun _ => (fun _ => 0, fun _ => 0))

theorem sampleWait_accounted :
    Throughout (serveMemoria sampleParser sampleConfig) Accounted sampleJoint
      (served sampleWait) :=
  accounted_throughout sampleParser sampleConfig 3 4 [2] 1 4 2 (fun _ => 0) _ (served sampleWait)
    (by decide) (by decide)

/-- A program is admitted and killed while it is ready. -/
def sampleKillReady : List (Residue × Event) :=
  [sampleNew, (sampleResidue, .planificacion 1), (sampleResidue, .kill 1)]

theorem sampleKillReady_taken :
    (run (serveMemoria sampleParser sampleConfig) sampleJoint (served sampleKillReady)).isSome := by
  decide

/-- Its pages are never given back. -/
theorem killed_process_keeps_pages :
    ¬ ∀ (parser : Parser) (config : Config) (multipgLevel memfd : Int) (semInit : List Int)
        (shared : Nat) (marcoSize : Int) (marcos : Nat) (main : Buf) (conn : Connection)
        (es : List ((Residue × Event) × (Nat → Buf × Buf))) (t : Joint),
      Along (serveMemoria parser config) InByte
        (Joint.init multipgLevel memfd semInit shared marcoSize marcos main conn) es →
      run (serveMemoria parser config)
        (Joint.init multipgLevel memfd semInit shared marcoSize marcos main conn) es = some t →
      Throughout (serveMemoria parser config) Accounted
        (Joint.init multipgLevel memfd semInit shared marcoSize marcos main conn) es := by
  intro hall
  have hrun := (Option.some_get sampleKillReady_taken).symm
  have hbyte : Along (serveMemoria sampleParser sampleConfig) InByte sampleJoint
      (served sampleKillReady) := by decide
  have hend := throughout_last _ _ _ _ _ (hall _ _ _ _ _ _ _ _ _ _ _ _ hbyte hrun) hrun
  have howns := hend 1
  revert howns
  decide

end Kernel

end Esther
