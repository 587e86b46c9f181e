import Esther.Theory.Values

/-!
# Names in Messages

Which semaphore or shared variable a message is about.

Both kinds of messages have a name behind one letter and no terminator. `gestion_syscall`
copies the name into its buffer with one byte more than there is. For a shared variable it
then takes as many characters as the name has. For a semaphore it compares what is in the
buffer as it is, so that the name goes on with the byte behind the message and with what
the buffer held, until there is a zero.

A name that is not configured has no entry, and neither search says so: the index is then
that behind the last one.

## Main definitions

* `nombres`, `indice`: The configured names, and the index that a message is given.
* `opera`: What a message does with the entry at an index.
* `NoToca`: A message that leaves all entries alone.
* `Resuelve`: A message is about the entry of its name.

## Theorems

* `strcmpEq_iff`: What the comparison says of a buffer.
* `gestionSyscall_opera`: A message acts on the entry at its index.
* `indice_iff`: The index is that of the name exactly if the name ends where it should.
* `names_resolve_iff`: A message is about the entry of its name exactly if there is one and
  the name ends.
* `other_semaphore`: A wait on `a` that is one on `ax`.
-/

namespace Esther

namespace Kernel

open Cells Serial

/-- The names that are configured for the entries that a message is about. -/
def nombres (config : Config) (packet : Packet) : List (List UInt8) :=
  if packet.header.opcode = .OP_CPU_SEMAPHORE then config.semIds else config.sharedVars

/-- The index that the search ends with. -/
def indice (config : Config) (r : Residue) (packet named : Packet) : Nat :=
  if packet.header.opcode = .OP_CPU_SEMAPHORE then semaphoreIndex config r named
  else sharedIndex config r named

/-- What a message does with the entry at an index. -/
def opera (k : State) (r : Residue) (packet named : Packet) (cpu : Client)
    (siguientes : List Packet) (i : Nat) : Option (State × List Packet) :=
  let k := k.leaveExec (syscallPid r packet)
  if packet.header.opcode = .OP_CPU_SEMAPHORE then
    (if named.pointer (r.payload 1) 0 = 119 then k.semWait (syscallPcb r packet) i
      else k.semSignal r (syscallPcb r packet) i).map fun k => (k.restoreCPU cpu, siguientes)
  else match k.sharedValues[i]? with
    | none => none
    | some value =>
        if named.pointer (r.payload 1) 0 = 118 then
          some ((k.send cpu.clientID (valuePacket r value)).restoreCPU cpu, siguientes)
        else match siguientes with
          | [] => none
          | packetValue :: siguientes =>
              let value := unpacki16 (packetValue.pointer (r.payload 2)) 0
              some ({ k with sharedValues := k.sharedValues.set i value }.restoreCPU cpu,
                siguientes)

/-- The kernel with other semaphores, request queues and shared values. -/
def State.conEntradas (k : State) (sem : List Int) (solicitudes : List (List Pcb))
    (valores : List Int) : State :=
  { k with semAnsisop := sem, solicitudesSem := solicitudes, sharedValues := valores }

/-- A message reads and writes no semaphore, request queue or shared value: whatever these are,
    it does the same and leaves them as they are. -/
def NoToca (config : Config) (k : State) (r : Residue) (packet named : Packet) (cpu : Client)
    (siguientes : List Packet) : Prop :=
  ∃ (u : State) (rest : List Packet), ∀ sem solicitudes valores,
    gestionSyscall config (k.conEntradas sem solicitudes valores) r packet cpu
        (named :: siguientes)
      = some (u.conEntradas sem solicitudes valores, rest)

/-- The first entry whose configured name is the one in the message. -/
def primera (config : Config) (packet : Packet) (nombre : List UInt8) : Option Nat :=
  (nombres config packet).findIdx? fun name => cstr name == nombre

/-- A message acts on the entry whose name it has, and on none if there is no such entry. -/
structure Resuelve (config : Config) (k : State) (r : Residue) (packet named : Packet)
    (cpu : Client) (siguientes : List Packet) (nombre : List UInt8) : Prop where
  entrada : ∀ i, primera config packet nombre = some i → indice config r packet named = i ∧
    gestionSyscall config k r packet cpu (named :: siguientes)
      = opera k r packet named cpu siguientes i
  ninguna : primera config packet nombre = none → NoToca config k r packet named cpu siguientes

/-! ### The comparison -/

/-- Two strings that are read at one place are the same. -/
theorem reads_cstr_unique (p : Buf) (a : Int) (xs ys : List UInt8) (hxs : (0 : UInt8) ∉ xs)
    (hys : (0 : UInt8) ∉ ys) (hx : Reads p a (xs ++ [0])) (hy : Reads p a (ys ++ [0])) :
    xs = ys := by
  induction xs generalizing a ys with
  | nil => cases ys with
    | nil => rfl
    | cons y ys =>
        have hzero := ((reads_cons _ _ _ _).mp hx).1
        have hy0 := ((reads_cons _ _ _ _).mp hy).1
        exact absurd (List.mem_cons.mpr (Or.inl (hzero.symm.trans hy0))) hys
  | cons x xs ih => cases ys with
    | nil =>
        have hx0 := ((reads_cons _ _ _ _).mp hx).1
        have hzero := ((reads_cons _ _ _ _).mp hy).1
        exact absurd (List.mem_cons.mpr (Or.inl (hzero.symm.trans hx0))) hxs
    | cons y ys =>
        rcases (reads_cons _ _ _ _).mp hx with ⟨hx0, hxrest⟩
        rcases (reads_cons _ _ _ _).mp hy with ⟨hy0, hyrest⟩
        rw [ih (a + 1) ys (fun h => hxs (List.mem_cons_of_mem _ h))
          (fun h => hys (List.mem_cons_of_mem _ h)) hxrest hyrest, hx0.symm.trans hy0]

theorem zero_notMem_cstr (s : List UInt8) : (0 : UInt8) ∉ cstr s := by
  intro hmem
  have hne := List.mem_takeWhile_imp hmem
  exact absurd rfl (of_decide_eq_true hne)

/-- `strcmp` finds a name equal to a buffer when the buffer has it and a zero behind it. -/
theorem strcmpEq_iff (name : List UInt8) (p : Buf) :
    strcmpEq name p = true ↔ Reads p 0 (cstr name ++ [0]) := by
  rw [strcmpEq, Bool.and_eq_true, beq_iff_eq, beq_iff_eq, reads_append, Int.zero_add]
  refine and_congr_right fun _ => ?_
  rw [reads_cons]
  exact (and_iff_left (reads_nil _ _)).symm

/-- What the buffer has of a message: the name, and the byte behind it. -/
theorem nameBuffer_reads (r : Residue) (named : Packet) (letra : UInt8) (nombre : List UInt8)
    (h : named.payload = letra :: nombre) :
    Reads (nameBuffer r named (r.payload 1)) 0
      (nombre ++ [named.pointer (r.payload 1) named.msgsize]) := by
  have hsize : named.msgsize = nombre.length + 1 := by rw [Packet.msgsize, h, List.length_cons]
  have hpayload := pointer_reads named (r.payload 1)
  rw [h, reads_cons] at hpayload
  have hsource : Reads (named.pointer (r.payload 1)) 1
      (nombre ++ [named.pointer (r.payload 1) named.msgsize]) := by
    rw [reads_append, reads_cons, hsize]
    refine ⟨hpayload.2, ?_, reads_nil _ _⟩
    congr 1
    push_cast
    omega
  have hlength : (nombre ++ [named.pointer (r.payload 1) named.msgsize]).length
      = named.msgsize := by
    rw [List.length_append, List.length_singleton, hsize]
  unfold Reads at hsource ⊢
  rw [hlength] at hsource ⊢
  rw [nameBuffer, slice_copy_self, hsource]

/-- A message acts on the entry at its index. -/
theorem gestionSyscall_opera (config : Config) (k : State) (r : Residue) (packet named : Packet)
    (cpu : Client) (siguientes : List Packet)
    (hop : packet.header.opcode = .OP_CPU_SEMAPHORE ∨ packet.header.opcode = .OP_CPU_SHARED_VAR)
    (hcap : named.msgsize ≤ bufferCapacity) :
    gestionSyscall config k r packet cpu (named :: siguientes)
      = opera k r packet named cpu siguientes (indice config r packet named) := by
  unfold gestionSyscall opera indice
  rcases hop with hop | hop
  · simp only [hop, if_neg (not_lt.mpr hcap), if_true]
    split
    · rename_i u hu
      have hmap := congrArg (Option.map fun k : State => (k.restoreCPU cpu, siguientes)) hu
      exact hmap.symm
    · rename_i hu
      have hmap := congrArg (Option.map fun k : State => (k.restoreCPU cpu, siguientes)) hu
      exact hmap.symm
  · simp only [hop, if_neg (not_lt.mpr hcap)]
    rfl

/-- The first entry of a name is where the search for the name ends. -/
theorem primera_eq_some_iff (config : Config) (packet : Packet) (nombre : List UInt8) (i : Nat) :
    primera config packet nombre = some i ↔ i < (nombres config packet).length
      ∧ (nombres config packet).findIdx (fun name => cstr name == nombre) = i :=
  List.findIdx?_eq_some_iff_findIdx_eq

/-- There is a first entry of a name if it is configured. -/
theorem primera_ne_none_iff (config : Config) (packet : Packet) (nombre : List UInt8) :
    primera config packet nombre ≠ none ↔ ∃ name ∈ nombres config packet, cstr name = nombre := by
  rw [primera, ne_eq, List.findIdx?_eq_none_iff]
  simp only [beq_eq_false_iff_ne, ne_eq, not_forall, not_not, exists_prop]

/-- The name in the buffer of a semaphore's message is a configured one that it should be
    exactly if there is a zero behind it. -/
theorem strcmpEq_nameBuffer (r : Residue) (named : Packet) (letra : UInt8)
    (nombre name : List UInt8) (hpayload : named.payload = letra :: nombre) (hname : cstr name = nombre) :
    strcmpEq name (nameBuffer r named (r.payload 1)) = true
      ↔ named.pointer (r.payload 1) named.msgsize = 0 := by
  have hbuffer := nameBuffer_reads r named letra nombre hpayload
  rw [strcmpEq_iff, hname]
  constructor
  · intro hfound
    have hbehind := ((reads_append _ _ _ _).mp hbuffer).2
    have hend := ((reads_append _ _ _ _).mp hfound).2
    rw [reads_cons] at hbehind hend
    exact hbehind.1.symm.trans hend.1
  · intro hbehind
    rw [hbehind] at hbuffer
    exact hbuffer

/-- The index of a semaphore's message is that of its name exactly if the name ends there. -/
theorem semaphoreIndex_iff (config : Config) (r : Residue) (named : Packet) (letra : UInt8)
    (nombre : List UInt8) (i : Nat) (hpayload : named.payload = letra :: nombre)
    (hzero : (0 : UInt8) ∉ nombre) (hlt : i < config.semIds.length)
    (hi : config.semIds.findIdx (fun name => cstr name == nombre) = i) :
    semaphoreIndex config r named = i ↔ named.pointer (r.payload 1) named.msgsize = 0 := by
  have hname : cstr config.semIds[i] = nombre :=
    eq_of_beq (getElem_of_findIdx (fun name => cstr name == nombre) _ i hlt hi)
  have hthere := strcmpEq_nameBuffer r named letra nombre _ hpayload hname
  constructor
  · intro hindex
    exact hthere.mp (getElem_of_findIdx _ _ i hlt hindex)
  · intro hbehind
    -- With the name ended, both searches look for the same.
    have hsame : ∀ name, strcmpEq name (nameBuffer r named (r.payload 1))
        = (cstr name == nombre) := by
      intro name
      have hbuffer := nameBuffer_reads r named letra nombre hpayload
      rw [hbehind] at hbuffer
      rw [Bool.eq_iff_iff, beq_iff_eq]
      constructor
      · intro hfound
        exact reads_cstr_unique _ 0 _ _ (zero_notMem_cstr name) hzero
          ((strcmpEq_iff _ _).mp hfound) hbuffer
      · intro hequal
        exact (strcmpEq_nameBuffer r named letra nombre name hpayload hequal).mpr hbehind
    rw [semaphoreIndex, ← hi]
    congr 1
    funext name
    exact hsame name

/-- The index is that of the name, for a semaphore exactly if the name ends where it should. -/
theorem indice_iff (config : Config) (r : Residue) (packet named : Packet) (letra : UInt8)
    (nombre : List UInt8) (i : Nat)
    (hop : packet.header.opcode = .OP_CPU_SEMAPHORE ∨ packet.header.opcode = .OP_CPU_SHARED_VAR)
    (hpayload : named.payload = letra :: nombre) (hzero : (0 : UInt8) ∉ nombre)
    (hi : primera config packet nombre = some i) :
    indice config r packet named = i ↔ (packet.header.opcode = .OP_CPU_SEMAPHORE →
      named.pointer (r.payload 1) named.msgsize = 0) := by
  rw [primera_eq_some_iff] at hi
  rcases hi with ⟨hlt, hi⟩
  rcases hop with hop | hop
  · simp only [nombres, hop, if_true] at hlt hi
    rw [indice, if_pos hop, semaphoreIndex_iff config r named letra nombre i hpayload hzero hlt hi]
    simp only [hop, forall_const]
  · have hnot : packet.header.opcode ≠ .OP_CPU_SEMAPHORE := by
      rw [hop]
      decide
    simp only [nombres, if_neg hnot] at hlt hi
    have hname : named.payload = letra :: cstr nombre := by
      rw [cstr_of_notMem nombre hzero, hpayload]
    have hindex := sharedIndex_eq config r named letra nombre hname
    rw [cstr_of_notMem nombre hzero] at hindex
    rw [indice, if_neg hnot, hindex]
    exact iff_of_true hi fun h => absurd h hnot

/-- A message always needs an entry: without any there is nothing it does. -/
theorem not_noToca (config : Config) (k : State) (r : Residue) (packet named : Packet)
    (cpu : Client) (siguientes : List Packet)
    (hop : packet.header.opcode = .OP_CPU_SEMAPHORE ∨ packet.header.opcode = .OP_CPU_SHARED_VAR)
    (hcap : named.msgsize ≤ bufferCapacity) :
    ¬ NoToca config k r packet named cpu siguientes := by
  rintro ⟨u, rest, h⟩
  have hempty := h [] [] []
  rw [gestionSyscall_opera config _ r packet named cpu siguientes hop hcap] at hempty
  rcases hop with hop | hop
  · simp only [opera, hop, if_true] at hempty
    split at hempty
    · exact absurd hempty.symm (Option.some_ne_none _)
    · exact absurd hempty.symm (Option.some_ne_none _)
  · simp only [opera, hop] at hempty
    exact absurd hempty.symm (Option.some_ne_none _)

/-- A message acts on the entry of its name exactly if there is one and, for a semaphore, the
    byte behind the message is zero. The buffer it comes in has `bufferCapacity` bytes on both
    sides. -/
theorem names_resolve_iff (config : Config) (k : State) (r : Residue) (packet named : Packet)
    (cpu : Client) (siguientes : List Packet) (letra : UInt8) (nombre : List UInt8)
    (hop : packet.header.opcode = .OP_CPU_SEMAPHORE ∨ packet.header.opcode = .OP_CPU_SHARED_VAR)
    (hpayload : named.payload = letra :: nombre) (hzero : (0 : UInt8) ∉ nombre)
    (hcap : named.msgsize ≤ bufferCapacity) :
    Resuelve config k r packet named cpu siguientes nombre
      ↔ (∃ name ∈ nombres config packet, cstr name = nombre)
        ∧ (packet.header.opcode = .OP_CPU_SEMAPHORE →
          named.pointer (r.payload 1) named.msgsize = 0) := by
  have hacts := gestionSyscall_opera config k r packet named cpu siguientes hop hcap
  rw [← primera_ne_none_iff config packet nombre]
  constructor
  · intro h
    have hsome : primera config packet nombre ≠ none := by
      intro hnone
      exact not_noToca config k r packet named cpu siguientes hop hcap (h.ninguna hnone)
    rcases Option.ne_none_iff_exists'.mp hsome with ⟨i, hi⟩
    exact ⟨hsome, (indice_iff config r packet named letra nombre i hop hpayload hzero hi).mp
      (h.entrada i hi).1⟩
  · rintro ⟨hsome, hends⟩
    constructor
    · intro i hi
      have hindex := (indice_iff config r packet named letra nombre i hop hpayload hzero hi).mpr
        hends
      rw [hindex] at hacts
      exact ⟨hindex, hacts⟩
    · intro hnone
      exact absurd hnone hsome

/-- The semaphores `a` and `ax`, both at 1. -/
def prefixConfig : Config :=
  { quantum := 1, stackSize := 1, pageSize := 8, semIds := [[97], [97, 120]], sharedVars := [],
    pageSizePos := Int.natCast_succ_pos 7 }

def prefixKernel : State := State.init 1 3 [1, 1] 0

/-- A message on the semaphore whose name is `nombre`. -/
def waitOn (nombre : List UInt8) : Packet :=
  { header := protocolHeader .CPU .OP_CPU_SEMAPHORE, payload := 119 :: nombre }

/-- The bytes behind a message are all `b`. -/
def behind (b : UInt8) : Residue :=
  { payload := fun _ _ => b, buffer := fun _ => 0,
    freed := fun pcb => pcb }

def prefixCpu : Client := { clientID := 6, process := .CPU, pids := [] }

theorem names_resolve_a :
    Resuelve prefixConfig prefixKernel (behind 0) (waitOn []) (waitOn [97]) prefixCpu [] [97] :=
  (names_resolve_iff prefixConfig prefixKernel (behind 0) (waitOn []) (waitOn [97]) prefixCpu []
    119 [97] (Or.inl rfl) rfl (by decide) (by decide)).mpr
    ⟨⟨[97], List.mem_cons_self, rfl⟩, fun _ => rfl⟩

/-- With an `x` behind it a wait on `a` is one on `ax`, and a wait on `b`, which is no
    semaphore, does not leave them alone. -/
theorem other_semaphore :
    indice prefixConfig (behind 120) (waitOn []) (waitOn [97]) = 1 ∧
      ¬ Resuelve prefixConfig prefixKernel (behind 120) (waitOn []) (waitOn [97]) prefixCpu []
        [97] ∧
      ¬ Resuelve prefixConfig prefixKernel (behind 0) (waitOn []) (waitOn [98]) prefixCpu []
        [98] := by
  have hindex : indice prefixConfig (behind 120) (waitOn []) (waitOn [97]) = 1 := by
    decide +kernel
  refine ⟨hindex, ?_, ?_⟩
  · intro h
    have hfirst := (h.entrada 0 rfl).1
    rw [hindex] at hfirst
    exact absurd hfirst Nat.one_ne_zero
  · intro h
    exact not_noToca prefixConfig prefixKernel (behind 0) (waitOn []) (waitOn [98]) prefixCpu []
      (Or.inl rfl) (by decide) (h.ninguna rfl)

end Kernel

end Esther
