import Esther.Theory.Connection

/-!
# Messages about Programs

Whether the program a message of the kernel is about is still in the console.

A number always finds a program. There is one that waits for it, since `kill` does not
take a program without a number and the kernel does not report the end of one.

The end of a program may find none. `kill` takes a program out of the list at once, while
the kernel goes on with it and reports its end, and the console uses what it has found in
the list without a check. A program is also lost when its number is replaced, and since
numbers are one byte it may be found in the place of another. `Libro` keeps the numbers
that programs have got and lost, and the one in a message about an end finds a program
exactly if it has been got more often than lost.

## Main definitions

* `Libro`: The console and the kernel, with the numbers that programs have got and lost.
* `Encuentra`: The message that is received finds its program.
* `Conserva`: The number in a message about an end has been got more often than lost.

## Theorems

* `Programas`: What every list of programs has.
* `llevado_step`: What the books say after a step.
* `survives_iff`: The runs in which every message finds its program.
* `killed_program_ends`: A message about a program that has been removed.
-/

namespace Esther

namespace Consola

open Cells Serial Transition

/-- A console and the kernel, with the numbers that programs have got and lost. -/
structure Libro where
  red : Red
  dados : List Int
  perdidos : List Int

def Libro.init (generatorPid : Int) : Libro :=
  { red := Red.init generatorPid, dados := [], perdidos := [] }

/-- A step, with what programs get and lose in it. -/
def anotar (s : Libro) (e : Evento) : Option Libro :=
  (s.red.step e).map fun u =>
    { red := u, dados := s.dados ++ altas s.red e, perdidos := s.perdidos ++ bajas s.red e }

/-- The message that is received finds the program it is about. -/
def Encuentra (s : Libro) : Evento → Prop
  | .recibe heap => match s.red.canal with
    | packet :: _ => (s.red.consola.messageReceiver heap packet).isSome = true
    | [] => True
  | _ => True

/-- The number in a message about an end has been got more often than lost. -/
def Conserva (s : Libro) : Evento → Prop
  | .recibe _ => match s.red.canal with
    | packet :: _ => packet.header.opcode = .OP_KE_PROGRAM_END →
        s.perdidos.count packet.usrpid < s.dados.count packet.usrpid
    | [] => True
  | _ => True

/-! ### Lists of programs -/

/-- Programs are told apart, and one that has ended has a number. -/
structure Programas (c : State) : Prop where
  distintos : (c.programs.map fun program => program.id).Nodup
  menores : ∀ program ∈ c.programs, program.id < c.allocated
  terminados : ∀ program ∈ c.programs, program.status = .PROGRAM_ENDED → program.pid ≠ -1

theorem programas_start (c : State) (hc : Programas c) :
    Programas { c with
      programs := c.programs ++ [{
        id := c.allocated, pid := -1, status := .PROGRAM_ACTIVE, exitcode := none }]
      allocated := c.allocated + 1 } := by
  refine ⟨?_, ?_, ?_⟩
  · rw [List.map_append, List.map_cons, List.map_nil, List.nodup_append]
    refine ⟨hc.distintos, List.nodup_singleton _, ?_⟩
    intro id hid other hother
    rcases List.mem_map.mp hid with ⟨program, hmem, rfl⟩
    rw [List.mem_singleton.mp hother]
    exact Nat.ne_of_lt (hc.menores program hmem)
  · intro program hmem
    rcases List.mem_append.mp hmem with hold | hnew
    · exact Nat.lt_succ_of_lt (hc.menores program hold)
    · rw [List.mem_singleton.mp hnew]
      exact Nat.lt_succ_self _
  · intro program hmem hended
    rcases List.mem_append.mp hmem with hold | hnew
    · exact hc.terminados program hold hended
    · rw [List.mem_singleton.mp hnew] at hended
      exact absurd hended (by simp only [reduceCtorEq, not_false_eq_true])

theorem programas_remove (c : State) (id : Nat) (hc : Programas c) :
    Programas (c.removeProgram id) := by
  rw [removeProgram_eq]
  refine ⟨?_, fun program hmem => ?_, fun program hmem => ?_⟩
  · exact List.Nodup.sublist (List.Sublist.map _ List.filter_sublist) hc.distintos
  · exact hc.menores program (List.mem_filter.mp hmem).1
  · exact hc.terminados program (List.mem_filter.mp hmem).1

/-- A program that has been changed is one of the list, or the one with the number. -/
theorem mem_cambiar (pid : Int) (f : Program → Program) (programs changed : List Program)
    (h : cambiar pid f programs = some changed) (program : Program) (hmem : program ∈ changed) :
    program ∈ programs ∨ ∃ old ∈ programs, old.pid = pid ∧ program = f old := by
  induction programs generalizing changed with
  | nil => exact absurd h (by simp only [cambiar, reduceCtorEq, not_false_eq_true])
  | cons element programs ih =>
      rw [cambiar] at h
      split at h
      · rename_i hpid
        rw [Option.some.injEq] at h
        rw [← h] at hmem
        rcases List.mem_cons.mp hmem with rfl | hmem
        · exact Or.inr ⟨element, List.mem_cons_self, beq_iff_eq.mp hpid, rfl⟩
        · exact Or.inl (List.mem_cons_of_mem _ hmem)
      · split at h
        · rename_i rest hrest
          rw [Option.some.injEq] at h
          rw [← h] at hmem
          rcases List.mem_cons.mp hmem with rfl | hmem
          · exact Or.inl List.mem_cons_self
          · rcases ih rest hrest hmem with hold | ⟨old, hold, hpid, hprogram⟩
            · exact Or.inl (List.mem_cons_of_mem _ hold)
            · exact Or.inr ⟨old, List.mem_cons_of_mem _ hold, hpid, hprogram⟩
        · exact absurd h (by simp only [reduceCtorEq, not_false_eq_true])

/-- There is a program to change if there is one with the number. -/
theorem cambiar_isSome (pid : Int) (f : Program → Program) (programs : List Program) :
    (cambiar pid f programs).isSome = true ↔ pid ∈ programs.map fun program => program.pid := by
  induction programs with
  | nil => simp only [cambiar, Option.isSome_none, Bool.false_eq_true, List.map_nil, List.not_mem_nil]
  | cons element programs ih =>
      rw [cambiar, List.map_cons, List.mem_cons]
      by_cases hpid : element.pid = pid
      · rw [if_pos (beq_iff_eq.mpr hpid)]
        exact iff_of_true rfl (Or.inl hpid.symm)
      · rw [if_neg (fun heq => hpid (beq_iff_eq.mp heq)), ← ih]
        cases cambiar pid f programs with
        | none =>
            refine iff_of_false Bool.false_ne_true fun h => ?_
            rcases h with heq | hsome
            · exact hpid heq.symm
            · exact absurd hsome Bool.false_ne_true
        | some changed => exact iff_of_true rfl (Or.inr rfl)

/-- A program that is given a number is the same program. -/
theorem programas_last (c : State) (program : Program) (pid : Int) (hc : Programas c)
    (hlast : c.programs.getLast? = some program) (hpid : pid ≠ -1) :
    Programas { c with programs := c.programs.dropLast ++ [{ program with pid := pid }] } := by
  have hsplit := List.dropLast_append_getLast? program hlast
  have hmember : ∀ other ∈ c.programs.dropLast ++ [{ program with pid := pid }],
      other ∈ c.programs ∨ other = { program with pid := pid } := by
    intro other hmem
    rcases List.mem_append.mp hmem with hold | hnew
    · exact Or.inl (List.dropLast_subset _ hold)
    · exact Or.inr (List.mem_singleton.mp hnew)
  have hids : (c.programs.dropLast ++ [{ program with pid := pid }]).map
      (fun program : Program => program.id) = c.programs.map fun program => program.id := by
    nth_rewrite 2 [← hsplit]
    rw [List.map_append, List.map_append, List.map_cons, List.map_cons]
  refine ⟨?_, ?_, ?_⟩
  · rw [hids]
    exact hc.distintos
  · intro other hmem
    rcases hmember other hmem with hold | rfl
    · exact hc.menores other hold
    · exact hc.menores program (List.mem_of_getLast? hlast)
  · intro other hmem hended
    rcases hmember other hmem with hold | rfl
    · exact hc.terminados other hold hended
    · exact hpid

/-- A program that ends has the number it is found by. -/
theorem programas_cambiar (c : State) (pid : Int) (code : Option Int) (programs : List Program)
    (hc : Programas c) (hpid : pid ≠ -1)
    (hchanged : cambiar pid (fun program =>
      { program with status := .PROGRAM_ENDED, exitcode := code }) c.programs = some programs) :
    Programas { c with programs := programs } := by
  refine ⟨?_, ?_, ?_⟩
  · rw [cambiar_map pid (fun program =>
      { program with status := .PROGRAM_ENDED, exitcode := code })
      (fun program : Program => program.id) (fun _ => rfl) _ _ hchanged]
    exact hc.distintos
  · intro other hmem
    rcases mem_cambiar _ _ _ _ hchanged other hmem with hold | ⟨old, hold, _, rfl⟩
    · exact hc.menores other hold
    · exact hc.menores old hold
  · intro other hmem hended
    rcases mem_cambiar _ _ _ _ hchanged other hmem with hold | ⟨old, hold, hfound, rfl⟩
    · exact hc.terminados other hold hended
    · show old.pid ≠ -1
      rw [hfound]
      exact hpid

theorem programas_step (s u : Red) (e : Evento) (hs : Enlazada s) (hc : Programas s.consola)
    (h : s.step e = some u) : Programas u.consola := by
  cases e with
  | run =>
      rcases step_run s u h with ⟨_, rfl⟩ | ⟨_, rfl⟩
      · exact hc
      · exact programas_start s.consola hc
  | kill pid =>
      simp only [Red.step, Option.some.injEq] at h
      rw [← h]
      show Programas (s.consola.killProgram pid)
      rcases killProgram_cases s.consola pid with ⟨hsame, _⟩ | ⟨program, _, _, hkill⟩
      · rw [hsame]
        exact hc
      · rw [hkill]
        exact programas_remove s.consola program.id hc
  | envia payload =>
      rw [(step_envia s u payload h).2]
      exact ⟨hc.distintos, hc.menores, hc.terminados⟩
  | falla id =>
      rw [(step_falla s u id h).2]
      exact programas_remove s.consola id hc
  | termina id =>
      rw [(step_termina s u id h).2]
      exact programas_remove s.consola id hc
  | atiende otros =>
      rcases step_atiende s u otros h with ⟨packet, _, ⟨_, rfl⟩ | ⟨_, rfl⟩⟩
      · exact hc
      · exact hc
  | fin pid code =>
      rw [step_fin s u pid code h]
      exact hc
  | recibe heap =>
      -- A number that comes in a packet is not the one of a program that has none yet.
      rcases step_recibe s u heap hs h with ⟨packet, canal, _, hcases⟩
      have hnonneg : (0 : Int) ≤ packet.usrpid := Int.natCast_nonneg _
      have hpid : packet.usrpid ≠ -1 := by omega
      rcases hcases with ⟨_, program, hlast, rfl⟩ | ⟨_, code, programs, hchanged, rfl⟩
      · exact programas_last s.consola program packet.usrpid hc hlast hpid
      · exact programas_cambiar s.consola packet.usrpid code programs hc hpid hchanged

/-! ### Books -/

/-- Only the program itself is removed. -/
theorem mem_quitado (c : State) (hc : Programas c) (program : Program)
    (hmem : program ∈ c.programs) (b : Int) (hb : b ∈ quitado c program.id) : b = program.pid := by
  rcases List.mem_map.mp hb with ⟨other, hother, rfl⟩
  rcases List.mem_filter.mp hother with ⟨hin, hid⟩
  rw [List.inj_on_of_nodup_map hc.distintos hin hmem (beq_iff_eq.mp hid)]

theorem length_quitado (c : State) (hc : Programas c) (id : Nat) : (quitado c id).length ≤ 1 := by
  have hcount : (quitado c id).length = (c.programs.map fun program => program.id).count id := by
    rw [quitado, List.length_map, ← List.countP_eq_length_filter, List.count, List.countP_map]
    rfl
  rw [hcount]
  exact List.nodup_iff_count_le_one.mp hc.distintos id

/-- What the books say: a program has a number as often as the number was got and not lost,
    and for every number to come there is a program that waits for one. -/
structure Llevado (s : Libro) : Prop where
  enlazada : Enlazada s.red
  programas : Programas s.red.consola
  cuentas : ∀ b, (pids s.red).count b + s.perdidos.count b = s.dados.count b
  espera : pendientes s.red ≤ (pids s.red).count (-1)

theorem llevado_init (generatorPid : Int) : Llevado (Libro.init generatorPid) where
  enlazada := enlazada_init generatorPid
  programas :=
    { distintos := List.nodup_nil
      menores := fun _ hmem => absurd hmem List.not_mem_nil
      terminados := fun _ hmem => absurd hmem List.not_mem_nil }
  cuentas := fun _ => rfl
  espera := Nat.le_refl 0

/-- A program that waits for a number stops waiting when it is given one, or when its thread
    ends. -/
theorem bajas_espera (s u : Red) (e : Evento) (hc : Programas s.consola)
    (h : s.step e = some u) :
    (bajas s e).count (-1) ≤ (asignados s e).length + (abandona e).toNat := by
  cases e with
  | kill pid =>
      simp only [bajas]
      split
      · exact Nat.zero_le _
      · rename_i hpid
        cases hfind : s.consola.getProgram pid with
        | none => exact Nat.zero_le _
        | some program =>
            -- A program that is killed has a number.
            refine (List.count_eq_zero.mpr fun hmem => ?_).trans_le (Nat.zero_le _)
            have hkilled := List.find?_some hfind
            simp only [beq_iff_eq] at hkilled
            have hsame := mem_quitado s.consola hc program (List.mem_of_find?_eq_some hfind) _ hmem
            omega
  | falla id =>
      exact (List.count_le_length).trans ((length_quitado s.consola hc id).trans (Nat.le_add_left _ _))
  | termina id =>
      -- A program that has ended has a number.
      rcases (step_termina s u id h).1 with ⟨program, hin, rfl, hended⟩
      refine (List.count_eq_zero.mpr ?_).trans_le (Nat.zero_le _)
      intro hmem
      exact hc.terminados program hin hended (mem_quitado s.consola hc program hin _ hmem).symm
  | recibe heap =>
      rw [bajas]
      split
      · exact Nat.zero_le _
      · rename_i hne
        have hpos := List.length_pos_iff.mpr hne
        refine List.count_le_length.trans (Nat.le_trans ?_ (Nat.le_add_right _ _))
        cases (pids s).getLast? with
        | none => exact Nat.zero_le _
        | some _ => exact hpos
  | _ => exact Nat.zero_le _

theorem llevado_step (s u : Libro) (e : Evento) (hs : Llevado s) (h : anotar s e = some u) :
    Llevado u := by
  rw [anotar, Option.map_eq_some_iff] at h
  rcases h with ⟨t, hstep, rfl⟩
  have hcambio := cambio_step s.red t e hs.enlazada hstep
  have hespera := hs.espera
  refine ⟨hcambio.enlazada, programas_step s.red t e hs.enlazada hs.programas hstep,
    fun b => ?_, ?_⟩
  · have hnumeros := hcambio.numeros b
    have hcuentas := hs.cuentas b
    simp only [List.count_append]
    omega
  · have hpendientes := hcambio.pendientes
    have hnumeros := hcambio.numeros (-1)
    have hbajas := bajas_espera s.red t e hs.programas hstep
    have haltas : (altas s.red e).count (-1) = (arranca s.red e).toNat := by
      have hnone : (asignados s.red e).count (-1) = 0 :=
        List.count_eq_zero.mpr fun hmem => mem_asignados s.red e (-1) hmem rfl
      rw [altas, List.count_append, hnone, Nat.add_zero]
      cases arranca s.red e <;> rfl
    show pendientes t ≤ (pids t).count (-1)
    omega

/-- A message finds its program exactly if its number has been got more often than lost, or
    if it is a number itself. -/
theorem encuentra_iff (s : Libro) (e : Evento) (hs : Llevado s) : Encuentra s e ↔ Conserva s e := by
  cases e with
  | recibe heap =>
      simp only [Encuentra, Conserva]
      split
      · rename_i packet canal hcanal
        rcases hs.enlazada.canal packet (by rw [hcanal]; exact List.mem_cons_self) with hop | hop
        · -- There is a program that waits for the number.
          have hnumero : esNumero packet = true := by rw [esNumero, hop]; rfl
          refine iff_of_true ?_ fun hend => absurd (hop.symm.trans hend)
            (by simp only [reduceCtorEq, not_false_eq_true])
          have hespera := hs.espera
          have hpos : 0 < (pids s.red).count (-1) := by
            simp only [pendientes, hcanal, List.countP_cons, hnumero, if_true] at hespera
            omega
          have hne : s.red.consola.programs ≠ [] := by
            intro hnil
            rw [pids, hnil] at hpos
            exact absurd hpos (Nat.lt_irrefl 0)
          simp only [State.messageReceiver, hop, List.getLast?_eq_some_getLast hne, Option.isSome_some]
        · have hfound : (s.red.consola.messageReceiver heap packet).isSome = true ↔
              packet.usrpid ∈ pids s.red := by
            rw [pids, ← cambiar_isSome packet.usrpid (fun program =>
              { program with
                status := .PROGRAM_ENDED
                exitcode := some (unpacki16 (packet.pointer heap) 0) })]
            simp only [State.messageReceiver, hop]
            cases cambiar packet.usrpid _ s.red.consola.programs <;> rfl
          have hcuentas := hs.cuentas packet.usrpid
          rw [hfound, ← List.count_pos_iff, imp_iff_right hop]
          omega
      · exact Iff.rfl
  | _ => exact Iff.rfl

/-- Every message finds the program it is about exactly if, when the end of a program is
    received, its number has been got more often than lost. -/
theorem survives_iff (generatorPid : Int) (eventos : List Evento) :
    Along anotar Encuentra (Libro.init generatorPid) eventos ↔
      Along anotar Conserva (Libro.init generatorPid) eventos :=
  along_iff anotar Conserva Encuentra Llevado (fun s e u hs h => llevado_step s u e hs h)
    (fun s e hs => encuentra_iff s e hs) _ eventos (llevado_init generatorPid)

/-- A program is started and gets the number 1, it is removed, and the kernel reports its end. -/
def sampleEventos : List Evento :=
  [.run, .envia [], .atiende 0, .recibe fun _ => 0, .kill 1, .fin 1 0]

theorem killed_program_ends : ∃ s, run anotar (Libro.init 0) sampleEventos = some s ∧
    ¬ Encuentra s (.recibe fun _ => 0) :=
  ⟨_, rfl, fun hfound => Bool.false_ne_true hfound⟩

end Consola

end Esther
