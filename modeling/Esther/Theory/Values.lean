import Esther.Lib.Register
import Esther.Theory.Dispatch

/-!
# Shared Variables in the Kernel

What the kernel does about a message on a shared variable, and what else it sends to the
CPU that has asked.

A message names the variable as a string behind one letter, and the kernel looks for the
first configured name equal to it; so names that are different strings have different
cells. The value travels in a field of two bytes, in both directions.

The kernel sends to the memory server, to the consoles and, in a scheduling round, to free
CPUs. A CPU that is on neither of the first two connections receives nothing else but the
answers to its own messages.

## Main definitions

* `registerIndex`: The cell of a name.
* `Distant`: A descriptor that is neither the memory server's nor a console's.
* `dispatched`: The CPUs a scheduling round sends control blocks to.

## Theorems

* `registerIndex_inj`: Two configured names with one cell are the same.
* `gestionSyscall_read`, `gestionSyscall_write`: The two kinds of messages.
* `wire_endProgram`, `wire_admitir`, `wire_despachar`: What reaches a CPU.
-/

namespace Esther

namespace Serial

/-- A string ends where it ends. -/
theorem cstr_cstr (s : List UInt8) : cstr (cstr s) = cstr s := by
  unfold cstr
  rw [List.takeWhile_eq_self_iff]
  intro b hb
  have hne := List.mem_takeWhile_imp hb
  exact hne

end Serial

namespace Kernel

open Cells Serial

/-- The cell of a shared variable, past the last one if the name is not configured. -/
def registerIndex (config : Config) (nombre : List UInt8) : Nat :=
  config.sharedVars.findIdx fun name => cstr name == nombre

/-- What a search finds passes its test. -/
theorem getElem_of_findIdx {β : Type*} (p : β → Bool) (xs : List β) (i : Nat) (hlt : i < xs.length)
    (h : xs.findIdx p = i) : p xs[i] = true := by
  subst h
  exact List.findIdx_getElem (w := hlt)

theorem registerIndex_inj (config : Config) (x y : List UInt8)
    (h : registerIndex config x = registerIndex config y)
    (hx : registerIndex config x < config.sharedVars.length) : x = y := by
  have hfound : ∀ z, registerIndex config z = registerIndex config x →
      cstr config.sharedVars[registerIndex config x] = z := by
    intro z hz
    exact eq_of_beq (getElem_of_findIdx (fun name => cstr name == z) _ _ hx hz)
  rw [← hfound x rfl, ← hfound y h.symm]

/-- The copy of the name starts behind the letter, and is cut at the end of the message. -/
theorem sharedIndex_eq (config : Config) (r : Residue) (packet : Packet) (letra : UInt8)
    (nombre : List UInt8) (h : packet.payload = letra :: cstr nombre) :
    sharedIndex config r packet = registerIndex config (cstr nombre) := by
  have hsize : packet.msgsize - 1 = (cstr nombre).length := by
    rw [Packet.msgsize, h, List.length_cons, Nat.add_sub_cancel]
  -- The name is copied without the letter before it and with nothing after it.
  have hname : slice (nameBuffer r packet (r.payload 1)) 0 (packet.msgsize - 1)
      = cstr nombre := by
    have hreads := pointer_reads packet (r.payload 1)
    rw [h, reads_cons] at hreads
    rw [hsize]
    refine Eq.trans (slice_congr _ _ _ _ _ fun k hk => ?_) hreads.2
    rw [nameBuffer, copy_apply, if_pos]
    · congr 1
      omega
    · have hlt : k < packet.msgsize := by omega
      omega
  unfold sharedIndex registerIndex
  simp only [hname, cstr_cstr]

/-- The answer to a message that asks for a value. -/
def valuePacket (r : Residue) (value : Int) : Packet :=
  packed r (protocolHeader .KERNEL .OP_KE_SEND_SHAREDVALUE) [.h value]

theorem valuePacket_payload (r : Residue) (value : Int) :
    (valuePacket r value).payload = encH value := by
  have hpack := serialPack_eq r.buffer 0 [.h value]
  have hargs : encArgs [.h value] = encH value := List.append_nil _
  rw [hargs] at hpack
  exact protocolPacket_serialPack _ r.buffer [.h value] (encH value) hpack

/-- The kernel is asked for a value. -/
theorem gestionSyscall_read (config : Config) (k u : State) (r : Residue) (cpu : Client)
    (packet named : Packet) (siguientes rest : List Packet) (nombre : List UInt8)
    (hop : packet.header.opcode = .OP_CPU_SHARED_VAR) (hname : named.payload = 118 :: cstr nombre)
    (h : gestionSyscall config k r packet cpu (named :: siguientes) = some (u, rest)) :
    rest = siguientes ∧ ∃ value,
      k.sharedValues[registerIndex config (cstr nombre)]? = some value
        ∧ u = ((k.leaveExec (syscallPid r packet)).send cpu.clientID
            (valuePacket r value)).restoreCPU cpu := by
  -- The first byte of the name tells a read from a write.
  have hletter : named.pointer (r.payload 1) 0 = 118 := by
    have hreads := pointer_reads named (r.payload 1)
    rw [hname, reads_cons] at hreads
    exact hreads.1
  rcases gestionSyscall_sharedVar config k u r cpu packet _ rest hop h with
    ⟨_, value, hvalue, ⟨hlist, _, hu⟩ | ⟨_, hlist, hother, _⟩⟩
  · rcases List.cons.inj hlist with ⟨hnamed, hrest⟩
    rw [← hnamed, sharedIndex_eq config r named 118 nombre hname] at hvalue
    exact ⟨hrest.symm, value, hvalue, hu⟩
  · rw [(List.cons.inj hlist).1] at hletter
    exact absurd hletter hother

/-- The kernel is given a value. -/
theorem gestionSyscall_write (config : Config) (k u : State) (r : Residue) (cpu : Client)
    (packet named value : Packet) (siguientes rest : List Packet) (nombre : List UInt8)
    (valor : Int) (hop : packet.header.opcode = .OP_CPU_SHARED_VAR)
    (hname : named.payload = 97 :: cstr nombre) (hvalue : value.payload = encH valor)
    (hshort : Short valor)
    (h : gestionSyscall config k r packet cpu (named :: value :: siguientes) = some (u, rest)) :
    rest = siguientes ∧ u = State.restoreCPU { k.leaveExec (syscallPid r packet) with
      sharedValues := k.sharedValues.set (registerIndex config (cstr nombre)) valor } cpu := by
  -- The first byte of the name tells a read from a write.
  have hletter : ¬ named.pointer (r.payload 1) 0 = 118 := by
    have hreads := pointer_reads named (r.payload 1)
    rw [hname, reads_cons] at hreads
    rw [hreads.1]
    decide
  -- The value comes as it was packed.
  have hread : unpacki16 (value.pointer (r.payload 2)) 0 = valor := by
    have hreads := pointer_reads value (r.payload 2)
    rw [hvalue] at hreads
    rw [unpacki16_of_reads _ _ _ hreads, toShort_of_short valor hshort]
  rcases gestionSyscall_sharedVar config k u r cpu packet _ rest hop h with
    ⟨_, old, _, ⟨hlist, hother, _⟩ | ⟨_, hlist, _, hu⟩⟩
  · rw [(List.cons.inj hlist).1] at hletter
    exact absurd hother hletter
  · rcases List.cons.inj hlist with ⟨hnamed, htail⟩
    rcases List.cons.inj htail with ⟨hgiven, hrest⟩
    rw [← hnamed, ← hgiven, sharedIndex_eq config r named 97 nombre hname, hread] at hu
    exact ⟨hrest.symm, hu⟩

/-- The descriptor is neither the memory server's nor a console's. -/
def State.Distant (k : State) (fd : Int) : Prop :=
  fd ≠ k.memfd ∧ ∀ client ∈ k.consolasConectadas, client.clientID ≠ fd

theorem send_wire_of_ne (k : State) (fd other : Int) (packet : Packet) (h : fd ≠ other) :
    (k.send other packet).wire fd = k.wire fd :=
  Function.update_of_ne h _ _

/-- Ending a program tells one console and the memory server. -/
theorem wire_endProgram (k : State) (r : Residue) (pcb : Pcb) (code fd : Int)
    (h : k.Distant fd) : (k.endProgram r pcb code).wire fd = k.wire fd := by
  simp only [State.endProgram, State.pcbRemove]
  split
  · rename_i console hconsole
    have hne := h.2 console (List.mem_of_find?_eq_some hconsole)
    exact (send_wire_of_ne _ fd _ _ h.1).trans (send_wire_of_ne _ fd _ _ (Ne.symm hne))
  · exact send_wire_of_ne _ fd _ _ h.1

theorem distant_endProgram (k : State) (r : Residue) (pcb : Pcb) (code fd : Int)
    (h : k.Distant fd) : (k.endProgram r pcb code).Distant fd := by
  rcases endProgram_eq k r pcb code with ⟨w, heq⟩
  rw [heq]
  exact h

theorem wire_endConsolePrograms (r : Residue) (k : State) (pids : List Int) (fd : Int)
    (h : k.Distant fd) : (endConsolePrograms r k pids).wire fd = k.wire fd
      ∧ (endConsolePrograms r k pids).Distant fd := by
  induction pids generalizing k with
  | nil => exact ⟨rfl, h⟩
  | cons pid pids ih =>
      unfold endConsolePrograms
      split
      · rename_i pcb _
        split
        · exact ih k h
        · have hrest := ih _ (distant_endProgram k r pcb exitConsoleKilled fd h)
          exact ⟨hrest.1.trans (wire_endProgram k r pcb _ fd h), hrest.2⟩
      · exact ih k h

/-- A new program is announced to its console. -/
theorem wire_gestionDatosNewPcb (parser : Parser) (config : Config) (k u : State) (r : Residue)
    (program : Packet) (console : Int)
    (h : gestionDatosNewPcb parser config k r program console = some u) :
    (∀ fd, fd ≠ console → u.wire fd = k.wire fd) ∧ ∀ fd, k.Distant fd → u.Distant fd := by
  rcases gestionDatosNewPcb_eq parser config k u r program console h with ⟨pcb, _, _, _, rfl⟩
  refine ⟨?_, ?_⟩
  · intro fd hfd
    exact send_wire_of_ne k fd console _ hfd
  -- The consoles keep their descriptors.
  · intro fd hfd
    refine ⟨hfd.1, ?_⟩
    intro client hclient
    rcases List.mem_map.mp hclient with ⟨old, hold, rfl⟩
    have hne := hfd.2 old hold
    split
    · exact hne
    · exact hne

theorem wire_storeCode (config : Config) (r : Residue) (pcb : Pcb) (code : List UInt8)
    (k u : State) (n : Nat) (pag tam fd : Int)
    (h : storeCode config r pcb code k n pag tam = some u) (hfd : fd ≠ k.memfd) :
    u.wire fd = k.wire fd := by
  induction n generalizing k pag tam with
  | zero =>
      rw [storeCode, Option.some.injEq] at h
      rw [h]
  | succ n ih =>
      simp only [storeCode] at h
      split at h
      · rename_i packet data _
        rw [ih ((k.send k.memfd packet).send k.memfd data) _ _ h hfd,
          send_wire_of_ne _ fd _ _ hfd, send_wire_of_ne _ fd _ _ hfd]
      · exact absurd h (by simp)

/-- Admitting a program is between the kernel and the memory server. -/
theorem wire_admitir (config : Config) (k u : State) (r : Residue) (res fd : Int)
    (hfd : fd ≠ k.memfd) (h : admitir config k r res = some u) : u.wire fd = k.wire fd := by
  simp only [admitir] at h
  split at h
  · rw [Option.some.injEq] at h
    rw [h]
  split at h
  · split at h
    · exact absurd h (by simp)
    split at h
    · split at h
      · rename_i k₁ hstore
        simp only [storeStack] at h
        split at h
        · exact absurd h (by simp)
        · rw [Option.some.injEq] at h
          rcases storeCode_eq _ _ _ _ _ _ _ _ _ hstore with ⟨w, hw⟩
          -- The code, the stack and the announcement go to the same descriptor.
          have hmem : k₁.memfd = k.memfd := by
            rw [hw]
            rfl
          have hfirst := wire_storeCode _ _ _ _ _ _ _ _ _ fd hstore hfd
          rw [← h, send_wire_of_ne _ fd _ _ (hmem ▸ hfd), send_wire_of_ne _ fd _ _ (hmem ▸ hfd),
            hfirst]
          exact send_wire_of_ne _ fd _ _ hfd
      · exact absurd h (by simp)
    · rw [Option.some.injEq] at h
      rw [← h]
      exact send_wire_of_ne _ fd _ _ hfd
  · rw [Option.some.injEq] at h
    rw [h]

/-- The CPUs the second half of a round sends control blocks to. -/
def dispatched (ready : List Pcb) (cpus : List Client) : List Int :=
  (cpus.take ready.length).map Client.clientID

/-- What reaches a descriptor in the second half of a round is for a CPU. -/
theorem wire_despachar (r : Residue) (k u : State) (ready : List Pcb) (cpus : List Client)
    (fd : Int) (h : despachar r k ready cpus = some u) :
    ∃ packets, u.wire fd = k.wire fd ++ packets
      ∧ (fd ∉ dispatched ready cpus → packets = []) := by
  induction ready generalizing k cpus with
  | nil =>
      simp only [despachar, Option.some.injEq] at h
      exact ⟨[], by rw [h, List.append_nil], fun _ => rfl⟩
  | cons pcb ready ih =>
      cases cpus with
      | nil =>
          simp only [despachar, Option.some.injEq] at h
          exact ⟨[], by rw [h, List.append_nil], fun _ => rfl⟩
      | cons cpu cpus =>
          rw [despachar] at h
          split at h
          · rename_i packet _
            rcases ih _ cpus h with ⟨packets, hwire, hnone⟩
            by_cases hfd : fd = cpu.clientID
            -- This CPU is one of those the round takes.
            · subst hfd
              refine ⟨packet :: packets, ?_, fun hnot => absurd ?_ hnot⟩
              · rw [hwire]
                simp only [State.send, Function.update_self, List.append_assoc,
                  List.singleton_append]
              · exact List.mem_cons_self
            · refine ⟨packets, ?_, fun hnot => hnone fun hmem => hnot ?_⟩
              · rw [hwire]
                simp only [State.send, Function.update_of_ne hfd]
              · exact List.mem_cons_of_mem _ hmem
          · exact absurd h (by simp)

end Kernel

end Esther
