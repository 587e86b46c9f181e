import Esther.Theory.Consoles
import Esther.Theory.Messages

/-!
# Who Starts a Burst

A CPU begins to execute a process when it reads a packet that says so. The kernel sends
such a packet in one place, the second half of a scheduling round; everything else it
sends is for the consoles and the memory server, or is read by a CPU and forgotten.

`Quiet` collects what a handler of the kernel that dispatches nobody leaves as it was:
who is in `pcb_exec`, who has ended, what a CPU is going to be told to execute.

## Main definitions

* `Idle`: A packet that starts nothing.
* `Quiet`: What a handler does that dispatches nobody.

## Theorems

* `quiet_admitir`, `quiet_newProgram`, `quiet_destroyConsole`, `quiet_terminalKill`: The
  handlers that are quiet.
* `adds_endProgram`: What ending a program sends.
-/

namespace Esther

namespace Kernel

open Cells Serial

/-- The packet starts nothing on a CPU. -/
def Idle (packet : Packet) : Prop :=
  packet.header.opcode ≠ .OP_KE_SEND_PCB ∧ packet.header.opcode ≠ .OP_KE_SEND_QUANTUM

/-- What is sent between two states, wherever to, is idle. -/
def Adds (k u : State) : Prop :=
  ∀ fd, ∃ packets, u.wire fd = k.wire fd ++ packets ∧ ∀ packet ∈ packets, Idle packet

theorem adds_of_wire_eq (k u : State) (h : u.wire = k.wire) : Adds k u := by
  intro fd
  exact ⟨[], by rw [h, List.append_nil], fun _ hmem => absurd hmem List.not_mem_nil⟩

theorem adds_trans (k u v : State) (hku : Adds k u) (huv : Adds u v) : Adds k v := by
  intro fd
  rcases hku fd with ⟨first, hfirst, hidle⟩
  rcases huv fd with ⟨second, hsecond, hidle'⟩
  refine ⟨first ++ second, by rw [hsecond, hfirst, List.append_assoc], fun packet hmem => ?_⟩
  rcases List.mem_append.mp hmem with h | h
  · exact hidle packet h
  · exact hidle' packet h

/-- What is true of everything sent, and of idle packets, stays true of everything sent. -/
theorem adds_forall (k u : State) (P : Packet → Prop) (h : Adds k u)
    (hold : ∀ fd, ∀ packet ∈ k.wire fd, P packet) (hidle : ∀ packet, Idle packet → P packet) :
    ∀ fd, ∀ packet ∈ u.wire fd, P packet := by
  intro fd packet hpacket
  rcases h fd with ⟨packets, hwire, hnew⟩
  rw [hwire] at hpacket
  rcases List.mem_append.mp hpacket with hmem | hmem
  · exact hold fd packet hmem
  · exact hidle packet (hnew packet hmem)

theorem adds_send (k : State) (fd : Int) (packet : Packet) (h : Idle packet) :
    Adds k (k.send fd packet) := by
  intro other
  by_cases hfd : other = fd
  · subst hfd
    refine ⟨[packet], Function.update_self .., fun p hp => ?_⟩
    rw [List.mem_singleton.mp hp]
    exact h
  · refine ⟨[], ?_, fun _ hmem => absurd hmem List.not_mem_nil⟩
    rw [List.append_nil]
    exact Function.update_of_ne hfd _ _

/-- Ending a program tells its console and the memory server. -/
theorem adds_endProgram (k : State) (r : Residue) (pcb : Pcb) (code : Int) :
    Adds k (k.endProgram r pcb code) := by
  simp only [State.endProgram]
  split
  · exact adds_trans _ _ _ (adds_trans _ _ _ (adds_of_wire_eq k _ rfl)
      (adds_send _ _ _ ⟨by simp [packed, protocolPacket, protocolHeader],
        by simp [packed, protocolPacket, protocolHeader]⟩))
      (adds_send _ _ _ ⟨by simp, by simp⟩)
  · exact adds_trans _ _ _ (adds_of_wire_eq k _ rfl) (adds_send _ _ _ ⟨by simp, by simp⟩)

theorem adds_endConsolePrograms (r : Residue) (k : State) (pids : List Int) :
    Adds k (endConsolePrograms r k pids) := by
  induction pids generalizing k with
  | nil => exact adds_of_wire_eq k k rfl
  | cons pid pids ih =>
      unfold endConsolePrograms
      split
      · rename_i pcb _
        split
        · exact ih k
        · exact adds_trans k _ _ (adds_endProgram k r pcb _) (ih _)
      · exact ih k

theorem adds_storeCode (config : Config) (r : Residue) (pcb : Pcb) (code : List UInt8)
    (k k' : State) (n : Nat) (pag tam : Int)
    (h : storeCode config r pcb code k n pag tam = some k') : Adds k k' := by
  induction n generalizing k pag tam with
  | zero =>
      rw [storeCode, Option.some.injEq] at h
      exact adds_of_wire_eq k k' (by rw [h])
  | succ n ih =>
      simp only [storeCode] at h
      split at h
      · rename_i packet data hpage
        simp only [storePage] at hpage
        split at hpage
        · exact absurd hpage (by simp)
        · rw [Option.some.injEq, Prod.mk.injEq] at hpage
          rcases hpage with ⟨rfl, rfl⟩
          refine adds_trans _ _ _ (adds_trans _ _ _ (adds_send k k.memfd _ ?_)
            (adds_send _ _ _ ?_)) (ih _ _ _ h)
          · exact ⟨by simp [packed, protocolPacket, protocolHeader],
              by simp [packed, protocolPacket, protocolHeader]⟩
          · exact ⟨by simp [protocolHeader], by simp [protocolHeader]⟩
      · exact absurd h (by simp)

theorem adds_storeStack (r : Residue) (pcb : Pcb) (k k' : State)
    (h : storeStack r pcb k = some k') : Adds k k' := by
  simp only [storeStack] at h
  split at h
  · exact absurd h (by simp)
  · rw [Option.some.injEq] at h
    subst h
    refine adds_trans _ _ _ (adds_send k k.memfd _ ?_) (adds_send _ _ _ ?_)
    · exact ⟨by simp [packed, protocolPacket, protocolHeader],
        by simp [packed, protocolPacket, protocolHeader]⟩
    · exact ⟨by simp [protocolPacket, protocolHeader], by simp [protocolPacket, protocolHeader]⟩

theorem adds_admitir (config : Config) (k k' : State) (r : Residue) (res : Int)
    (h : admitir config k r res = some k') : Adds k k' := by
  have hini : ∀ pid (args : List Arg), Idle (packed r
      { protocolHeader .KERNEL .OP_ME_INIPRO with usrpid := byte pid } args) := fun _ _ =>
    ⟨by simp [packed, protocolPacket, protocolHeader],
      by simp [packed, protocolPacket, protocolHeader]⟩
  simp only [admitir] at h
  split at h
  · rw [Option.some.injEq] at h
    exact adds_of_wire_eq k k' (by rw [h])
  split at h
  · split at h
    · exact absurd h (by simp)
    split at h
    · split at h
      · rename_i k₁ hstore
        -- The request for pages, the text and the stack, one after the other.
        refine adds_trans k k₁ k' (adds_trans k _ k₁ ?_ (adds_storeCode _ _ _ _ _ _ _ _ _ hstore))
          (adds_storeStack _ _ _ _ h)
        exact adds_send k k.memfd _ (hini _ _)
      · exact absurd h (by simp)
    · rw [Option.some.injEq] at h
      subst h
      exact adds_send k k.memfd _ (hini _ _)
  · rw [Option.some.injEq] at h
    exact adds_of_wire_eq k k' (by rw [h])

/-- What a handler leaves as it was that dispatches nobody. -/
structure Quiet (k u : State) : Prop where
  wire : Adds k u
  exec : ∀ pid, occurrences pid u.pcbExec = occurrences pid k.pcbExec
  exit : ∀ pid, 0 < occurrences pid k.pcbExit → 0 < occurrences pid u.pcbExit

theorem quiet_refl (k : State) : Quiet k k :=
  ⟨adds_of_wire_eq k k rfl, fun _ => rfl, fun _ h => h⟩

theorem quiet_trans (k u v : State) (hku : Quiet k u) (huv : Quiet u v) : Quiet k v :=
  ⟨adds_trans k u v hku.wire huv.wire, fun pid => (huv.exec pid).trans (hku.exec pid),
    fun pid h => huv.exit pid (hku.exit pid h)⟩

theorem quiet_admitir (config : Config) (k u : State) (r : Residue) (res : Int)
    (h : admitir config k r res = some u) : Quiet k u := by
  refine ⟨adds_admitir config k u r res h, fun pid => ?_, fun pid hpos => ?_⟩
  · rcases admitir_cases config k u r res h with
      rfl | ⟨_, _, _, _, -, -, -, ⟨-, w, rfl⟩ | ⟨-, w, rfl⟩⟩
    · rfl
    · rfl
    · rfl
  · rcases admitir_cases config k u r res h with
      rfl | ⟨_, _, _, _, -, -, -, ⟨-, w, rfl⟩ | ⟨-, w, rfl⟩⟩
    · exact hpos
    · exact hpos
    · simp only [occurrences_append]
      omega

theorem quiet_newProgram (parser : Parser) (config : Config) (k u : State) (r : Residue)
    (program : Packet) (console : Int)
    (h : gestionDatosNewPcb parser config k r program console = some u) : Quiet k u := by
  rcases gestionDatosNewPcb_eq parser config k u r program console h with ⟨pcb, _, _, _, rfl⟩
  refine ⟨?_, fun pid => rfl, fun pid hpos => hpos⟩
  -- The console is answered with the number.
  exact adds_send k console _
    ⟨by simp [protocolPacket, protocolHeader], by simp [protocolPacket, protocolHeader]⟩

/-- A process the kernel finds in another state than `EXEC` is not in `pcb_exec`, as
    long as it is in one place. -/
theorem exec_of_status (k : State) (pcb : Pcb) (pid : Int) (honce : k.total pid ≤ 1)
    (hfound : k.pcbById pid = some pcb) (hstatus : k.pcbStatus pcb ≠ some .EXEC) :
    pcb.idProcess = pid ∧ k.total pid = 1 ∧ occurrences pid k.pcbExec = 0 := by
  have hpid := pcbById_idProcess k pid pcb hfound
  have htotal : k.total pid = 1 := by
    have hsome : ¬ k.pcbById pid = none := by
      rw [hfound]
      simp
    rw [pcbById_eq_none_iff] at hsome
    omega
  refine ⟨hpid, htotal, ?_⟩
  -- Otherwise `pcb_status` finds it in no queue before `pcb_exec`, and there.
  by_contra hexec
  refine hstatus ((pcbStatus_eq_exec_iff k pcb).mpr ?_)
  rw [hpid]
  unfold State.total at htotal
  omega

/-- A console that leaves ends its programs, except those a CPU executes. -/
theorem quiet_endConsolePrograms (r : Residue) (k : State) (pids : List Int)
    (honce : ∀ pid, k.total pid ≤ 1) :
    Quiet k (endConsolePrograms r k pids)
      ∧ ∀ pid, (endConsolePrograms r k pids).total pid = k.total pid := by
  induction pids generalizing k with
  | nil => exact ⟨quiet_refl k, fun _ => rfl⟩
  | cons pid pids ih =>
      unfold endConsolePrograms
      split
      · rename_i pcb hfound
        split
        · exact ih k honce
        · rename_i hstatus
          rcases exec_of_status k pcb pid (honce pid) hfound hstatus with ⟨hpid, htotal, hexec⟩
          -- It is in one queue, not `pcb_exec`, and goes from there to `pcb_exit`.
          have hend : ∀ other, (k.endProgram r pcb exitConsoleKilled).total other
              = k.total other := by
            intro other
            rw [total_endProgram, hpid]
            by_cases hother : pid = other
            · rw [if_pos hother, ← hother, htotal]
            · rw [if_neg hother]
          have hquiet : Quiet k (k.endProgram r pcb exitConsoleKilled) := by
            refine ⟨adds_endProgram k r pcb _, fun other => ?_, fun other hpos => ?_⟩
            · rcases endProgram_eq k r pcb exitConsoleKilled with ⟨w, heq⟩
              rw [heq, occurrences_removePid, hpid]
              by_cases hother : pid = other
              · rw [if_pos hother, ← hother, hexec]
              · rw [if_neg hother]
            · rcases endProgram_eq k r pcb exitConsoleKilled with ⟨w, heq⟩
              rw [heq]
              simp only [occurrences_append, occurrences_removePid, occurrences_cons,
                occurrences_nil, hpid]
              by_cases hother : pid = other
              · rw [if_pos hother, if_pos hother]
                omega
              · rw [if_neg hother, if_neg hother]
                omega
          rcases ih _ (fun other => hend other ▸ honce other) with ⟨hrest, htotals⟩
          exact ⟨quiet_trans _ _ _ hquiet hrest, fun other => (htotals other).trans (hend other)⟩
      · exact ih k honce

theorem quiet_destroyConsole (k : State) (r : Residue) (client : Client)
    (honce : ∀ pid, k.total pid ≤ 1) :
    Quiet k (destroyConsole k r client)
      ∧ ∀ pid, (destroyConsole k r client).total pid = k.total pid := by
  rcases quiet_endConsolePrograms r
    { k with
      consolasConectadas := k.consolasConectadas.filter fun elem =>
        !(elem.clientID == client.clientID) }
    client.pids honce with ⟨hquiet, htotal⟩
  exact ⟨⟨hquiet.wire, hquiet.exec, hquiet.exit⟩, htotal⟩

theorem quiet_terminalKill (k : State) (pid : Int) : Quiet k (terminalKill k pid) := by
  refine ⟨adds_of_wire_eq _ _ rfl, fun _ => rfl, fun other hpos => ?_⟩
  simp only [terminalKill, occurrences_append]
  omega

end Kernel

end Esther
