import Esther.Core.Consola
import Esther.Lib.Transition

/-!
# A Console and the Kernel

What a step does to the programs of a console and to the numbers it waits for.

Numbers come to a console in three stages. A program has been started and its thread has
not sent it, or it has been sent and the kernel has not read it, or the kernel has
answered and the answer is under way. `pendientes` counts them together, and only a start
adds one.

A program loses the number it has when it is removed, and also when it is given another.
`altas` and `bajas` are the numbers that programs get and lose in a step, a program that
has none being one that has -1, and the two account for all changes.

## Main definitions

* `pids`: The numbers of the programs.
* `pendientes`: The numbers to come.
* `asignados`: The number a message gives.
* `altas`, `bajas`: The numbers programs get and lose.
* `Cambio`: The numbers before and after a step.

## Theorems

* `removeProgram_eq`, `killProgram_cases`, `messageReceiver_cases`: What the functions do.
* `step_run`, `step_envia`, `step_falla`, `step_termina`, `step_atiende`, `step_fin`,
  `step_recibe`: What each of the steps does.
* `cambio_step`: What a step does to the numbers.
-/

namespace Esther

namespace Consola

open Cells Serial Transition

/-- The numbers of the programs, in the order of the list. -/
def pids (s : Red) : List Int := s.consola.programs.map fun program => program.pid

/-- The packet is a new program. -/
def esNuevo (packet : Packet) : Bool := packet.header.opcode == .OP_NEW_PROGRAM

/-- The message gives a program its number. -/
def esNumero (packet : Packet) : Bool := packet.header.opcode == .OP_KE_SEND_PID

/-- The numbers that are still to come. -/
def pendientes (s : Red) : Nat :=
  s.porEnviar + (s.consola.enviados.drop s.leidos).countP esNuevo + s.canal.countP esNumero

/-- The number that is given when a message is received. -/
def asignados (s : Red) : Evento → List Int
  | .recibe _ => match s.canal with
    | packet :: _ => if esNumero packet then [packet.usrpid] else []
    | [] => []
  | _ => []

/-- The number of a program that is removed. -/
def quitado (c : State) (id : Nat) : List Int :=
  (c.programs.filter fun element => element.id == id).map fun program => program.pid

/-- A program is started. -/
def arranca (s : Red) : Evento → Bool
  | .run => !decide (maxPrograms ≤ s.consola.programs.length)
  | _ => false

/-- The numbers that programs get, -1 with the start. -/
def altas (s : Red) (e : Evento) : List Int :=
  (if arranca s e then [-1] else []) ++ asignados s e

/-- The numbers that programs lose: those of the programs that are removed, and that of the
    last one when it is given another. -/
def bajas (s : Red) : Evento → List Int
  | .kill pid =>
      if pid ≤ 0 then []
      else match s.consola.getProgram pid with
        | some program => quitado s.consola program.id
        | none => []
  | .falla id => quitado s.consola id
  | .termina id => quitado s.consola id
  | .recibe heap =>
      if asignados s (.recibe heap) = [] then [] else (pids s).getLast?.toList
  | _ => []

/-- A number that is given is not negative. -/
theorem mem_asignados (s : Red) (e : Evento) (n : Int) (h : n ∈ asignados s e) : n ≠ -1 := by
  cases e with
  | recibe heap =>
      simp only [asignados] at h
      split at h
      · split at h
        · rename_i packet _ _ _
          have hbyte : n = packet.usrpid := List.mem_singleton.mp h
          have hnonneg : 0 ≤ packet.usrpid := Int.natCast_nonneg _
          omega
        · exact absurd h List.not_mem_nil
      · exact absurd h List.not_mem_nil
  | _ => exact absurd h List.not_mem_nil

/-! ### Packets -/

theorem notify_eq (programs : List Program) (c : State) :
    programs.foldl (fun c program => c.notifyKernel program.pid) c
      = { c with enviados := c.enviados ++ programs.map fun program => programKilled program.pid } := by
  induction programs generalizing c with
  | nil => rw [List.map_nil, List.append_nil, List.foldl_nil]
  | cons program programs ih =>
      rw [List.foldl_cons, ih, List.map_cons]
      simp only [State.notifyKernel, List.append_assoc, List.singleton_append]

/-- Programs that are removed are reported, and nothing else is sent. -/
theorem removeProgram_eq (c : State) (id : Nat) :
    c.removeProgram id = { c with
      programs := c.programs.filter fun element => !(element.id == id)
      enviados := c.enviados ++ (quitado c id).map programKilled } := by
  rw [State.removeProgram, notify_eq, quitado, List.map_map]
  rfl

theorem countP_killed (numeros : List Int) : (numeros.map programKilled).countP esNuevo = 0 := by
  rw [List.countP_eq_zero]
  intro packet hmem
  rcases List.mem_map.mp hmem with ⟨pid, _, rfl⟩
  exact Bool.false_ne_true

/-- `kill` removes a program or does nothing. -/
theorem killProgram_cases (c : State) (pid : Int) :
    (c.killProgram pid = c ∧ (pid ≤ 0 ∨ c.getProgram pid = none)) ∨
    ∃ program, 0 < pid ∧ c.getProgram pid = some program ∧
      c.killProgram pid = c.removeProgram program.id := by
  unfold State.killProgram
  by_cases hpid : pid ≤ 0
  · exact Or.inl ⟨if_pos hpid, Or.inl hpid⟩
  · rw [if_neg hpid]
    cases hfind : c.getProgram pid with
    | none => exact Or.inl ⟨rfl, Or.inr rfl⟩
    | some program => exact Or.inr ⟨program, by omega, rfl, rfl⟩

/-- A message of one of the two kinds changes the programs. -/
theorem messageReceiver_cases (c u : State) (heap : Buf) (packet : Packet)
    (hkind : packet.header.opcode = .OP_KE_SEND_PID ∨ packet.header.opcode = .OP_KE_PROGRAM_END)
    (h : c.messageReceiver heap packet = some u) :
    (esNumero packet = true ∧ ∃ program, c.programs.getLast? = some program ∧ u = { c with
      programs := c.programs.dropLast ++ [{ program with pid := packet.usrpid }] }) ∨
    (esNumero packet = false ∧ ∃ code programs, cambiar packet.usrpid
      (fun program => { program with status := .PROGRAM_ENDED, exitcode := code }) c.programs
        = some programs ∧ u = { c with programs := programs }) := by
  unfold State.messageReceiver at h
  rcases hkind with hop | hop
  · simp only [hop] at h
    cases hlast : c.programs.getLast? with
    | none =>
        rw [hlast] at h
        exact absurd h (by simp only [reduceCtorEq, not_false_eq_true])
    | some program =>
        rw [hlast, Option.some.injEq] at h
        exact Or.inl ⟨by rw [esNumero, hop]; rfl, program, rfl, h.symm⟩
  · simp only [hop] at h
    split at h
    · rename_i programs hprograms
      rw [Option.some.injEq] at h
      exact Or.inr ⟨by rw [esNumero, hop]; rfl, _, programs, hprograms, h.symm⟩
    · exact absurd h (by simp only [reduceCtorEq, not_false_eq_true])

/-- What a change does not touch stays as it was, in its place. -/
theorem cambiar_map {α : Type} (pid : Int) (f : Program → Program) (g : Program → α)
    (hf : ∀ program, g (f program) = g program) (programs changed : List Program)
    (h : cambiar pid f programs = some changed) : changed.map g = programs.map g := by
  induction programs generalizing changed with
  | nil => exact absurd h (by simp only [cambiar, reduceCtorEq, not_false_eq_true])
  | cons program programs ih =>
      rw [cambiar] at h
      split at h
      · rw [Option.some.injEq] at h
        rw [← h, List.map_cons, List.map_cons, hf]
      · split at h
        · rename_i rest hrest
          rw [Option.some.injEq] at h
          rw [← h, List.map_cons, List.map_cons, ih rest hrest]
        · exact absurd h (by simp only [reduceCtorEq, not_false_eq_true])

/-- The messages of the kernel are of two kinds. -/
structure Enlazada (s : Red) : Prop where
  leidos : s.leidos ≤ s.consola.enviados.length
  canal : ∀ packet ∈ s.canal,
    packet.header.opcode = .OP_KE_SEND_PID ∨ packet.header.opcode = .OP_KE_PROGRAM_END

theorem enlazada_init (generatorPid : Int) : Enlazada (Red.init generatorPid) :=
  ⟨Nat.le_refl 0, fun _ hmem => absurd hmem List.not_mem_nil⟩

/-! ### Steps -/

/-- A program is started, or there are too many. -/
theorem step_run (s u : Red) (h : s.step .run = some u) :
    (arranca s .run = false ∧ u = s) ∨
    (arranca s .run = true ∧ u = { s with
      consola := { s.consola with
        programs := s.consola.programs ++ [{
          id := s.consola.allocated, pid := -1, status := .PROGRAM_ACTIVE, exitcode := none }]
        allocated := s.consola.allocated + 1 }
      porEnviar := s.porEnviar + 1 }) := by
  rw [Red.step] at h
  by_cases hfull : maxPrograms ≤ s.consola.programs.length
  · rw [if_pos hfull, Option.some.injEq] at h
    refine Or.inl ⟨?_, h.symm⟩
    simp only [arranca, hfull, decide_true, Bool.not_true]
  · rw [if_neg hfull, Option.some.injEq, State.startProgramThread, if_neg hfull] at h
    refine Or.inr ⟨?_, h.symm⟩
    simp only [arranca, hfull, decide_false, Bool.not_false]

theorem step_envia (s u : Red) (payload : List UInt8) (h : s.step (.envia payload) = some u) :
    s.porEnviar ≠ 0 ∧ u = { s with
      consola := s.consola.sendProgram payload
      porEnviar := s.porEnviar - 1 } := by
  simp only [Red.step] at h
  split at h
  · exact absurd h (by simp only [reduceCtorEq, not_false_eq_true])
  · rename_i hpos
    exact ⟨hpos, (Option.some.inj h).symm⟩

theorem step_falla (s u : Red) (id : Nat) (h : s.step (.falla id) = some u) :
    s.porEnviar ≠ 0 ∧ u = { s with
      consola := s.consola.removeProgram id
      porEnviar := s.porEnviar - 1 } := by
  simp only [Red.step] at h
  split at h
  · exact absurd h (by simp only [reduceCtorEq, not_false_eq_true])
  · rename_i hpos
    exact ⟨hpos, (Option.some.inj h).symm⟩

theorem step_termina (s u : Red) (id : Nat) (h : s.step (.termina id) = some u) :
    (∃ program ∈ s.consola.programs, program.id = id ∧ program.status = .PROGRAM_ENDED) ∧
      u = { s with consola := s.consola.removeProgram id } := by
  simp only [Red.step] at h
  split at h
  · rename_i program hfind
    split at h
    · rename_i hended
      have hid := List.find?_some hfind
      rw [beq_iff_eq] at hid
      exact ⟨⟨program, List.mem_of_find?_eq_some hfind, hid, hended⟩, (Option.some.inj h).symm⟩
    · exact absurd h (by simp only [reduceCtorEq, not_false_eq_true])
  · exact absurd h (by simp only [reduceCtorEq, not_false_eq_true])

/-- The kernel answers a new program and passes over other packets. -/
theorem step_atiende (s u : Red) (otros : Nat) (h : s.step (.atiende otros) = some u) :
    ∃ packet, s.consola.enviados[s.leidos]? = some packet ∧
      ((esNuevo packet = true ∧ u = { s with
          leidos := s.leidos + 1
          generatorPid := s.generatorPid + otros + 1
          vivos := s.vivos ++ [s.generatorPid + otros + 1]
          canal := s.canal ++ [sendPid (s.generatorPid + otros + 1)] }) ∨
        (esNuevo packet = false ∧ u = { s with leidos := s.leidos + 1 })) := by
  simp only [Red.step] at h
  split at h
  · rename_i packet hpacket
    refine ⟨packet, hpacket, ?_⟩
    rw [Red.atiende] at h
    by_cases hnew : packet.header.opcode = .OP_NEW_PROGRAM
    · simp only [if_pos hnew] at h
      split at h
      · exact Or.inl ⟨beq_iff_eq.mpr hnew, (Option.some.inj h).symm⟩
      · exact absurd h (by simp only [reduceCtorEq, not_false_eq_true])
    · simp only [if_neg hnew, Option.some.injEq] at h
      exact Or.inr ⟨beq_eq_false_iff_ne.mpr hnew, h.symm⟩
  · exact absurd h (by simp only [reduceCtorEq, not_false_eq_true])

theorem step_fin (s u : Red) (pid code : Int) (h : s.step (.fin pid code) = some u) :
    u = { s with vivos := s.vivos.erase pid, canal := s.canal ++ [programEnd pid code] } := by
  simp only [Red.step] at h
  split at h
  · exact (Option.some.inj h).symm
  · exact absurd h (by simp only [reduceCtorEq, not_false_eq_true])

/-- The console takes a message and changes a program. -/
theorem step_recibe (s u : Red) (heap : Buf) (hs : Enlazada s)
    (h : s.step (.recibe heap) = some u) :
    ∃ packet canal, s.canal = packet :: canal ∧
      ((esNumero packet = true ∧ ∃ program, s.consola.programs.getLast? = some program ∧
          u = { s with
            consola := { s.consola with
              programs := s.consola.programs.dropLast ++ [{ program with pid := packet.usrpid }] }
            canal := canal }) ∨
        (esNumero packet = false ∧ ∃ code programs, cambiar packet.usrpid
            (fun program => { program with status := .PROGRAM_ENDED, exitcode := code })
            s.consola.programs = some programs ∧
          u = { s with consola := { s.consola with programs := programs }, canal := canal })) := by
  simp only [Red.step] at h
  split at h
  · rename_i packet canal hcanal
    have hkind := hs.canal packet (by rw [hcanal]; exact List.mem_cons_self)
    split at h
    · rename_i consola hreceived
      obtain rfl := Option.some.inj h
      refine ⟨packet, canal, hcanal, ?_⟩
      rcases messageReceiver_cases _ _ heap packet hkind hreceived
        with ⟨hnumero, program, hlast, rfl⟩ | ⟨hnumero, code, programs, hchanged, rfl⟩
      · exact Or.inl ⟨hnumero, program, hlast, rfl⟩
      · exact Or.inr ⟨hnumero, code, programs, hchanged, rfl⟩
    · exact absurd h (by simp only [reduceCtorEq, not_false_eq_true])
  · exact absurd h (by simp only [reduceCtorEq, not_false_eq_true])

/-! ### Numbers -/

/-- A thread that cannot read its program ends. -/
def abandona : Evento → Bool
  | .falla _ => true
  | _ => false

/-- What a step does to the numbers: those to come become fewer by the one that is given
    and by that of a thread that ends, and more by one with a start; and those of the
    programs change by what they get and lose. -/
structure Cambio (s u : Red) (e : Evento) : Prop where
  enlazada : Enlazada u
  pendientes : pendientes u + (asignados s e).length + (abandona e).toNat
    = pendientes s + (arranca s e).toNat
  numeros : ∀ b, (pids u).count b + (bajas s e).count b = (pids s).count b + (altas s e).count b

/-- Packets that are sent wait to be read. -/
theorem drop_enviados (s : Red) (hs : Enlazada s) (packets : List Packet) :
    (s.consola.enviados ++ packets).drop s.leidos = s.consola.enviados.drop s.leidos ++ packets :=
  List.drop_append_of_le_length hs.leidos

/-- A removal takes the numbers it reports and none of those to come. -/
theorem removeProgram_numeros (c : State) (id : Nat) (b : Int) :
    (((c.removeProgram id).programs.map fun program => program.pid).count b
      + (quitado c id).count b = (c.programs.map fun program => program.pid).count b) := by
  rw [removeProgram_eq, quitado]
  induction c.programs with
  | nil => rfl
  | cons program programs ih =>
      cases hid : program.id == id with
      | true =>
          simp only [List.filter_cons, hid, Bool.not_true, Bool.false_eq_true, if_false, if_true,
            List.map_cons, List.count_cons] at ih ⊢
          omega
      | false =>
          simp only [List.filter_cons, hid, Bool.not_false, Bool.false_eq_true, if_false, if_true,
            List.map_cons, List.count_cons] at ih ⊢
          omega

/-- A program is removed. -/
theorem cambio_removeProgram (s : Red) (e : Evento) (id n : Nat) (hs : Enlazada s)
    (hasignados : asignados s e = []) (harranca : arranca s e = false)
    (hbajas : bajas s e = quitado s.consola id) (hn : n + (abandona e).toNat = s.porEnviar) :
    Cambio s { s with consola := s.consola.removeProgram id, porEnviar := n } e := by
  have hleidos := hs.leidos
  have henviados : (s.consola.removeProgram id).enviados
      = s.consola.enviados ++ (quitado s.consola id).map programKilled := by
    rw [removeProgram_eq]
  refine ⟨⟨?_, hs.canal⟩, ?_, fun b => ?_⟩
  · show s.leidos ≤ (s.consola.removeProgram id).enviados.length
    rw [henviados, List.length_append]
    omega
  · rw [hasignados, harranca]
    simp only [pendientes, henviados, drop_enviados s hs, List.countP_append, countP_killed,
      List.length_nil, Bool.toNat_false]
    omega
  · rw [hbajas, altas, hasignados, harranca]
    exact removeProgram_numeros s.consola id b

theorem cambio_run (s u : Red) (hs : Enlazada s) (h : s.step .run = some u) : Cambio s u .run := by
  rcases step_run s u h with ⟨harranca, rfl⟩ | ⟨harranca, rfl⟩
  · refine ⟨hs, ?_, ?_⟩
    · rw [harranca]
      rfl
    · intro b
      rw [altas, harranca]
      rfl
  · refine ⟨⟨hs.leidos, hs.canal⟩, ?_, ?_⟩
    · rw [harranca]
      simp only [pendientes, asignados, abandona, List.length_nil, Bool.toNat_false,
        Bool.toNat_true]
      omega
    · intro b
      rw [altas, harranca]
      simp only [pids, List.map_append, List.map_cons, List.map_nil, asignados, bajas,
        List.count_append, List.count_nil, if_true, Nat.add_zero]

/-- The kernel takes a packet. -/
theorem cambio_atiende (s u : Red) (otros : Nat) (hs : Enlazada s)
    (h : s.step (.atiende otros) = some u) : Cambio s u (.atiende otros) := by
  rcases step_atiende s u otros h with ⟨packet, hpacket, hcases⟩
  rcases List.getElem?_eq_some_iff.mp hpacket with ⟨hlt, hget⟩
  have hdrop := List.drop_eq_getElem_cons hlt
  rw [hget] at hdrop
  rcases hcases with ⟨hnew, rfl⟩ | ⟨hnew, rfl⟩
  · -- A number that waited to be read is now under way.
    refine ⟨⟨hlt, ?_⟩, ?_, ?_⟩
    · intro other hmem
      rcases List.mem_append.mp hmem with hold | hreply
      · exact hs.canal other hold
      · rw [List.mem_singleton.mp hreply]
        exact Or.inl rfl
    · have hreply : esNumero (sendPid (s.generatorPid + otros + 1)) = true := rfl
      simp only [pendientes, hdrop, List.countP_cons, hnew, List.countP_append, List.countP_nil,
        hreply, asignados, abandona, arranca, List.length_nil, Bool.toNat_false, if_true]
      omega
    · intro b
      simp only [pids, bajas, altas, arranca, asignados, Bool.false_eq_true, if_false,
        List.append_nil]
  · refine ⟨⟨hlt, hs.canal⟩, ?_, ?_⟩
    · simp only [pendientes, hdrop, List.countP_cons, hnew, asignados, abandona, arranca,
        List.length_nil, Bool.toNat_false, Bool.false_eq_true, if_false, Nat.add_zero]
    · intro b
      simp only [pids, bajas, altas, arranca, asignados, Bool.false_eq_true, if_false,
        List.append_nil]

/-- The number a program is given takes the place of its own. -/
theorem pids_last (s : Red) (program : Program)
    (hlast : s.consola.programs.getLast? = some program) :
    pids s = (s.consola.programs.dropLast.map fun program => program.pid) ++ [program.pid] := by
  have hsplit := List.dropLast_append_getLast? program hlast
  rw [pids]
  nth_rewrite 1 [← hsplit]
  rw [List.map_append, List.map_cons, List.map_nil]

/-- A message is received. -/
theorem cambio_recibe (s u : Red) (heap : Buf) (hs : Enlazada s)
    (h : s.step (.recibe heap) = some u) : Cambio s u (.recibe heap) := by
  rcases step_recibe s u heap hs h with ⟨packet, canal, hcanal, hcases⟩
  have hrest : ∀ other ∈ canal, other.header.opcode = .OP_KE_SEND_PID
      ∨ other.header.opcode = .OP_KE_PROGRAM_END := fun other hmem =>
    hs.canal other (by rw [hcanal]; exact List.mem_cons_of_mem _ hmem)
  rcases hcases with ⟨hnumero, program, hlast, rfl⟩ | ⟨hnumero, code, programs, hchanged, rfl⟩
  · -- The last program gets the number and loses its own.
    have hasignados : asignados s (.recibe heap) = [packet.usrpid] := by
      simp only [asignados, hcanal, hnumero, if_true]
    refine ⟨⟨hs.leidos, hrest⟩, ?_, ?_⟩
    · simp only [pendientes, hasignados, hcanal, List.countP_cons, hnumero, abandona, arranca,
        List.length_singleton, Bool.toNat_false, if_true]
      omega
    · intro b
      have hbajas : bajas s (.recibe heap) = [program.pid] := by
        simp only [bajas, hasignados, List.cons_ne_nil, if_false, pids, List.getLast?_map, hlast,
          Option.map_some, Option.toList_some]
      rw [hbajas, altas, hasignados, pids_last s program hlast]
      simp only [pids, List.map_append, List.map_cons, List.map_nil, arranca, Bool.false_eq_true,
        if_false, List.nil_append, List.count_append]
      omega
  · -- The program that has ended keeps its number.
    have hasignados : asignados s (.recibe heap) = [] := by
      simp only [asignados, hcanal, hnumero, Bool.false_eq_true, if_false]
    have hpids := cambiar_map packet.usrpid (fun program =>
      { program with status := .PROGRAM_ENDED, exitcode := code }) (fun program => program.pid)
      (fun _ => rfl) _ _ hchanged
    refine ⟨⟨hs.leidos, hrest⟩, ?_, ?_⟩
    · simp only [pendientes, hasignados, hcanal, List.countP_cons, hnumero, abandona, arranca,
        List.length_nil, Bool.toNat_false, Bool.false_eq_true, if_false, Nat.add_zero]
    · intro b
      rw [altas, hasignados, bajas, hasignados, if_pos rfl]
      simp only [pids, hpids, arranca, Bool.false_eq_true, if_false, List.append_nil]

/-- What waited to be sent now waits to be read. -/
theorem cambio_envia (s u : Red) (payload : List UInt8) (hs : Enlazada s)
    (h : s.step (.envia payload) = some u) : Cambio s u (.envia payload) := by
  have hleidos := hs.leidos
  rcases step_envia s u payload h with ⟨hpos, rfl⟩
  refine ⟨⟨?_, hs.canal⟩, ?_, fun b => rfl⟩
  · simp only [State.sendProgram, List.length_append]
    omega
  · have hnew : esNuevo { header := protocolHeader .CONSOLE .OP_NEW_PROGRAM, payload := payload }
        = true := rfl
    simp only [pendientes, State.sendProgram, drop_enviados s hs, List.countP_append,
      List.countP_cons, List.countP_nil, hnew, if_true, asignados, abandona, arranca,
      List.length_nil, Bool.toNat_false]
    omega

/-- The end of a program is reported. -/
theorem cambio_fin (s u : Red) (pid code : Int) (hs : Enlazada s)
    (h : s.step (.fin pid code) = some u) : Cambio s u (.fin pid code) := by
  rw [step_fin s u pid code h]
  refine ⟨⟨hs.leidos, ?_⟩, ?_, fun b => rfl⟩
  · intro packet hmem
    rcases List.mem_append.mp hmem with hold | hend
    · exact hs.canal packet hold
    · rw [List.mem_singleton.mp hend]
      exact Or.inr rfl
  · have hend : esNumero (programEnd pid code) = false := rfl
    simp only [pendientes, List.countP_append, List.countP_cons, List.countP_nil, hend, asignados,
      abandona, arranca, List.length_nil, Bool.toNat_false, Bool.false_eq_true, if_false]
    omega

/-- The command `kill`. -/
theorem cambio_kill (s u : Red) (pid : Int) (hs : Enlazada s) (h : s.step (.kill pid) = some u) :
    Cambio s u (.kill pid) := by
  rw [Red.step, Option.some.injEq] at h
  rw [← h]
  rcases killProgram_cases s.consola pid with ⟨hsame, hnone⟩ | ⟨program, hpid, hfind, hkill⟩
  · have hbajas : bajas s (.kill pid) = [] := by
      rw [bajas]
      rcases hnone with hpid | hnone
      · rw [if_pos hpid]
      · rw [hnone, ite_self]
    rw [hsame]
    refine ⟨hs, rfl, fun b => ?_⟩
    rw [hbajas]
    rfl
  · rw [hkill]
    refine cambio_removeProgram s (.kill pid) program.id s.porEnviar hs rfl rfl ?_ rfl
    rw [bajas, if_neg (by omega), hfind]

/-- Every step changes the numbers so. -/
theorem cambio_step (s u : Red) (e : Evento) (hs : Enlazada s) (h : s.step e = some u) :
    Cambio s u e := by
  cases e with
  | run => exact cambio_run s u hs h
  | kill pid => exact cambio_kill s u pid hs h
  | envia payload => exact cambio_envia s u payload hs h
  | falla id =>
      rcases step_falla s u id h with ⟨hpos, rfl⟩
      refine cambio_removeProgram s (.falla id) id _ hs rfl rfl rfl ?_
      simp only [abandona, Bool.toNat_true]
      omega
  | termina id =>
      rw [(step_termina s u id h).2]
      exact cambio_removeProgram s (.termina id) id s.porEnviar hs rfl rfl rfl rfl
  | atiende otros => exact cambio_atiende s u otros hs h
  | fin pid code => exact cambio_fin s u pid code hs h
  | recibe heap => exact cambio_recibe s u heap hs h

end Consola

end Esther
