import Esther.Core.Terminal
import Esther.Lib.Lines
import Esther.Theory.Codes
import Esther.Theory.Consoles
import Esther.Theory.Settling

/-!
# The Terminal and the Server

The two threads of the kernel, in every order of their steps.

All that is proved about the kernel is proved about its handlers one after another. This is
what the threads come to. What the terminal changes while a handler is running is nothing the
handler uses (`serve_multipg`, `serve_terminalKill`), so it can as well have been changed before
the handler started, and what the handler will leave is still what it would leave if it ran now
(`Hilos.Coherente`). The rounds in which `kill` finds nothing leave no trace.

Nothing the server has received is lost on the way, and nothing is handled twice: what has come
is what has been handled and then what waits.

## Main definitions

* `Acto`, `actua`: What changes the kernel's data, one thing after another.
* `Hilos.hechos`, `Hilos.llegados`: What a step completes, and what it brings.
* `Hilos.Mueve`: The steps that can be taken.
* `Hilos.Coherente`: What the threads may take for granted of each other.

## Theorems

* `serve_multipg`, `serve_terminalKill`: What the handlers do not use.
* `hechos_mueve`, `pendientes_mueve`: What a step does to the data and to what waits.
* `threads_serialize`: Every order of the steps.
-/

namespace Esther

namespace Kernel

open Serial Transition Lines

/-- What changes the kernel's data: a handler, a round of `kill` that finds its process, and a
    new `multipg_level`. -/
inductive Acto
  | evento (e : Residue × Event)
  | kill (pid : Int)
  | multipg (level : Int)

/-- The kernel, with one act after another. -/
def actua (parser : Parser) (config : Config) (k : State) : Acto → Option State
  | .evento e => k.serve parser config e
  | .kill pid => if k.killable pid then some (terminalKill k pid) else none
  | .multipg level => some (k.conNivel level)

/-- The event of an act of the server. -/
def Acto.servido : Acto → Option (Residue × Event)
  | .evento e => some e
  | _ => none

/-- The acts a step completes. -/
def Hilos.hechos (s : Hilos) : Paso → List Acto
  | .termina => match s.servidor with
    | .atiende e _ _ => [.evento e]
    | _ => []
  | .ronda => match s.terminal with
    | .busca pid => if s.kernel.killable pid then [.kill pid] else []
    | _ => []
  | .multipg (some level) => if level < 0 then [] else [.multipg level]
  | _ => []

/-- What a step brings the server to handle. -/
def Hilos.llegados (_ : Hilos) : Paso → List (Residue × Event)
  | .select listos r res => listos ++ [(r, .planificacion res)]
  | _ => []

/-- What has come and is not yet handled. -/
def Hilos.pendientes (s : Hilos) : List (Residue × Event) :=
  match s.servidor with
  | .recorre turno => turno
  | .espera e turno => e :: turno
  | .atiende e turno _ => e :: turno

/-- The kernel's data once the running handler, if there is one, has ended. -/
def Hilos.deja (s : Hilos) : State :=
  match s.servidor with
  | .atiende _ _ deja => deja
  | _ => s.kernel

/-! ### What the handlers do not use -/

theorem endProgram_multipg (k : State) (r : Residue) (pcb : Pcb) (code level : Int) :
    (k.conNivel level).endProgram r pcb code
      = (k.endProgram r pcb code).conNivel level := by
  simp only [State.endProgram, State.pcbRemove, State.conNivel]
  cases k.consolasConectadas.find? fun client =>
      client.pids.any fun pid => pid == pcb.idProcess with
  | none => rfl
  | some console => rfl

theorem semWait_multipg (k : State) (pcb : Pcb) (i : Nat) (level : Int) :
    (k.conNivel level).semWait pcb i
      = (k.semWait pcb i).map fun u => u.conNivel level := by
  simp only [State.semWait, State.conNivel]
  cases k.semAnsisop[i]? with
  | none => rfl
  | some value => cases k.solicitudesSem[i]? with
    | none => rfl
    | some queue =>
        simp only
        split
        · rfl
        · split <;> rfl

theorem semSignal_multipg (k : State) (r : Residue) (pcb : Pcb) (i : Nat) (level : Int) :
    (k.conNivel level).semSignal r pcb i
      = (k.semSignal r pcb i).map fun u => u.conNivel level := by
  simp only [State.semSignal, State.conNivel]
  cases k.semAnsisop[i]? with
  | none => rfl
  | some value => cases k.solicitudesSem[i]? with
    | none => rfl
    | some queue =>
        simp only
        split
        · rfl
        · split <;> rfl

theorem gestionSyscall_multipg (config : Config) (k : State) (r : Residue) (cpu : Client)
    (packet : Packet) (siguientes : List Packet) (level : Int) :
    gestionSyscall config (k.conNivel level) r packet cpu siguientes
      = (gestionSyscall config k r packet cpu siguientes).map fun s =>
        (s.1.conNivel level, s.2) := by
  unfold gestionSyscall
  cases packet.header.opcode with
  | OP_CPU_PROGRAM_END =>
      have hend := endProgram_multipg (k.leaveExec (syscallPid r packet)) r (syscallPcb r packet)
        exitSuccessful level
      simp only [Option.map_some, Option.some.injEq, Prod.mk.injEq, and_true]
      exact congrArg (fun u => u.restoreCPU cpu) hend
  | OP_CPU_SEMAPHORE => cases siguientes with
    | nil => rfl
    | cons packetSem siguientes =>
        have hwait := semWait_multipg (k.leaveExec (syscallPid r packet)) (syscallPcb r packet)
          (semaphoreIndex config r packetSem) level
        have hsignal := semSignal_multipg (k.leaveExec (syscallPid r packet)) r
          (syscallPcb r packet) (semaphoreIndex config r packetSem) level
        simp only [State.leaveExec, syscallPid, syscallPcb, State.conNivel] at hwait hsignal
        simp only [State.conNivel]
        -- The packet has no letter, or it is a wait or a signal.
        split
        · rfl
        · by_cases hletra : packetSem.pointer (r.payload 1) 0 = 119
          · simp only [if_pos hletra, hwait]
            cases State.semWait _ _ _ <;> rfl
          · simp only [if_neg hletra, hsignal]
            cases State.semSignal _ _ _ _ <;> rfl
  | OP_CPU_SHARED_VAR => cases siguientes with
    | nil => rfl
    | cons packetSharedVar siguientes =>
        simp only [State.conNivel]
        split
        · rfl
        · cases k.sharedValues[sharedIndex config r packetSharedVar]? with
          | none => rfl
          | some value =>
              simp only
              split
              · rfl
              · cases siguientes <;> rfl
  | _ => rfl

theorem crearPcbProceso_multipg (parser : Parser) (config : Config) (k : State)
    (program : MetadataProgram) (level : Int) :
    crearPcbProceso parser config (k.conNivel level) program
      = (crearPcbProceso parser config k program).map fun s => (s.1.conNivel level, s.2) := by
  cases hfits : fitsInt (k.generatorPid + 1) with
  | false => simp only [crearPcbProceso, State.conNivel, hfits, Bool.not_false, if_true,
      Option.map_none]
  | true =>
      simp only [crearPcbProceso, State.conNivel, hfits, Bool.not_true, Bool.false_eq_true, if_false]
      cases leerTags parser program
        (program.cantidadDeEtiquetas + program.cantidadDeFunciones).toNat 0 <;> rfl

theorem endConsolePrograms_multipg (r : Residue) (k : State) (pids : List Int) (level : Int) :
    endConsolePrograms r (k.conNivel level) pids
      = (endConsolePrograms r k pids).conNivel level := by
  induction pids generalizing k with
  | nil => rfl
  | cons pid pids ih =>
      by_cases hends : k.ends pid = true
      · simp only [endConsolePrograms]
        have hfound : (k.conNivel level).pcbById pid = k.pcbById pid := rfl
        rw [hfound]
        cases k.pcbById pid with
        | none => exact ih k
        | some pcb =>
            have hstatus : (k.conNivel level).pcbStatus pcb = k.pcbStatus pcb := rfl
            simp only [hstatus, endProgram_multipg]
            split
            · exact ih k
            · exact ih _
      · rw [endConsolePrograms_skips r k pid pids hends,
          endConsolePrograms_skips r (k.conNivel level) pid pids hends, ih]

/-- A handler other than the scheduling round does the same at any level. -/
theorem serve_multipg (parser : Parser) (config : Config) (k : State) (e : Residue × Event)
    (level : Int) (h : e.2.usaNivel = false) :
    (k.conNivel level).serve parser config e
      = (k.serve parser config e).map fun u => u.conNivel level := by
  rcases e with ⟨r, event⟩
  cases event with
  | connectConsole fd => rfl
  | connectCpu fd => rfl
  | newProgram console program =>
      simp only [State.serve, State.step, gestionDatosNewPcb, crearPcbProceso_multipg]
      cases crearPcbProceso parser config k
        (parser.metadataDesdeLiteral (program.pointer (r.payload 0))) <;> rfl
  | planificacion res => exact absurd h (by simp [Event.usaNivel])
  | syscall cpu packet siguientes =>
      simp only [State.serve, gestionSyscall_multipg, Option.map_map]
      rfl
  | destroyConsole client =>
      simp only [State.serve, State.step, destroyConsole, Option.map_some, Option.some.injEq]
      exact endConsolePrograms_multipg r { k with
        consolasConectadas := k.consolasConectadas.filter fun elem =>
          !(elem.clientID == client.clientID) } client.pids level
  | kill pid =>
      simp only [State.serve, State.step, apply_ite (Option.map _), Option.map_some, Option.map_none]
      rfl

/-- A handler that does not use the queues does the same before and after a round of `kill`. -/
theorem serve_terminalKill (parser : Parser) (config : Config) (k : State) (e : Residue × Event)
    (pid : Int) (h : e.2.usaColas = false) :
    (terminalKill k pid).serve parser config e
      = (k.serve parser config e).map fun u => terminalKill u pid := by
  rcases e with ⟨r, event⟩
  cases event with
  | connectConsole fd => rfl
  | connectCpu fd => rfl
  | newProgram console program => exact absurd h (by simp [Event.usaColas])
  | planificacion res => exact absurd h (by simp [Event.usaColas])
  | syscall cpu packet siguientes =>
      simp only [State.serve]
      unfold gestionSyscall
      cases hop : packet.header.opcode with
      | OP_CPU_PROGRAM_END => simp [Event.usaColas, hop] at h
      | OP_CPU_SEMAPHORE => simp [Event.usaColas, hop] at h
      | OP_CPU_SHARED_VAR => cases siguientes with
        | nil => rfl
        | cons packetSharedVar siguientes =>
            -- The shared variables are none of what `kill` changes.
            have hvalues : (terminalKill k pid).sharedValues = k.sharedValues := rfl
            simp only [hvalues]
            split
            · rfl
            · cases k.sharedValues[sharedIndex config r packetSharedVar]? with
              | none => rfl
              | some value =>
                  simp only
                  split
                  · rfl
                  · cases siguientes <;> rfl
      | _ => rfl
  | destroyConsole client => exact absurd h (by simp [Event.usaColas])
  | kill pid => exact absurd h (by simp [Event.usaColas])

/-- And it leaves them alone. -/
theorem killable_serve (parser : Parser) (config : Config) (k u : State) (e : Residue × Event)
    (pid : Int) (h : e.2.usaColas = false) (hu : k.serve parser config e = some u) :
    u.killable pid = k.killable pid := by
  rcases e with ⟨r, event⟩
  cases event with
  | connectConsole fd => rw [step_connectConsole parser config k u r fd hu]; rfl
  | connectCpu fd => rw [step_connectCpu parser config k u r fd hu]; rfl
  | newProgram console program => exact absurd h (by simp [Event.usaColas])
  | planificacion res => exact absurd h (by simp [Event.usaColas])
  | syscall cpu packet siguientes =>
      rcases serve_syscall parser config k u r cpu packet siguientes hu with ⟨rest, hsyscall⟩
      rcases gestionSyscall_cases config k u r cpu packet siguientes rest hsyscall with
        ⟨hop, -⟩ | ⟨hop, -⟩ | ⟨-, values, w, rfl⟩ | ⟨-, -, -, rfl⟩
      · simp [Event.usaColas, hop] at h
      · simp [Event.usaColas, hop] at h
      · rfl
      · rfl
  | destroyConsole client => exact absurd h (by simp [Event.usaColas])
  | kill pid => exact absurd h (by simp [Event.usaColas])

/-- A round of `kill` that finds nothing changes nothing. -/
theorem terminalKill_idle (k : State) (pid : Int) (h : k.killable pid = false) :
    terminalKill k pid = k := by
  simp only [State.killable, List.any_append, Bool.or_eq_false_iff] at h
  rcases h with ⟨⟨hnew, hblock⟩, hready⟩
  simp only [terminalKill, killIn_none pid _ hnew, killIn_none pid _ hblock,
    killIn_none pid _ hready, List.append_nil, if_true]

/-! ### Steps -/

/-- The steps that can be taken, and where they lead. -/
inductive Hilos.Mueve (parser : Parser) (config : Config) (s : Hilos) : Paso → Hilos → Prop
  | select (listos : List (Residue × Event)) (r : Residue) (res : Int)
      (hservidor : s.servidor = .recorre []) (hlistos : ∀ e ∈ listos, e.2.deCliente = true) :
      Mueve parser config s (.select listos r res)
        { s with servidor := .recorre (listos ++ [(r, .planificacion res)]) }
  | aguarda (e : Residue × Event) (turno : List (Residue × Event))
      (hservidor : s.servidor = .recorre (e :: turno)) (hmutex : e.2.bajoMutex = true) :
      Mueve parser config s .siguiente { s with servidor := .espera e turno }
  | empieza (e : Residue × Event) (turno : List (Residue × Event)) (deja : State)
      (hservidor : s.servidor = .recorre (e :: turno)) (hmutex : e.2.bajoMutex = false)
      (hdeja : s.kernel.serve parser config e = some deja) :
      Mueve parser config s .siguiente { s with servidor := .atiende e turno deja }
  | toma (e : Residue × Event) (turno : List (Residue × Event)) (deja : State)
      (hservidor : s.servidor = .espera e turno) (hmutex : s.mutex = none)
      (hdeja : s.kernel.serve parser config e = some deja) :
      Mueve parser config s .toma
        { s with mutex := some .initServer, servidor := .atiende e turno deja }
  | termina (e : Residue × Event) (turno : List (Residue × Event)) (deja : State)
      (hservidor : s.servidor = .atiende e turno deja) :
      Mueve parser config s .termina
        { s with
          kernel := deja
          mutex := if e.2.bajoMutex then none else s.mutex
          servidor := .recorre turno }
  | stop (hterminal : s.terminal = .lee) :
      Mueve parser config s .stop { s with terminal := .espera }
  | detiene (hterminal : s.terminal = .espera) (hmutex : s.mutex = none) :
      Mueve parser config s .detiene { s with mutex := some .terminal, terminal := .lee }
  | restart (hterminal : s.terminal = .lee) (hmutex : s.mutex = some .terminal) :
      Mueve parser config s .restart { s with mutex := none }
  | kill (pid : Int) (hterminal : s.terminal = .lee) :
      Mueve parser config s (.kill pid) { s with terminal := .busca pid }
  | ronda (pid : Int) (t : Hilos) (hterminal : s.terminal = .busca pid)
      (hcambia : Hilos.cambia { s with
        terminal := if s.kernel.killable pid then .lee else .busca pid } Event.usaColas
        (fun k => terminalKill k pid) = some t) : Mueve parser config s .ronda t
  | nivel (level : Int) (t : Hilos) (hterminal : s.terminal = .lee) (hlevel : ¬ level < 0)
      (hcambia : s.cambia Event.usaNivel (fun k => k.conNivel level) = some t) :
      Mueve parser config s (.multipg (some level)) t
  | muestra (level : Option Int) (hterminal : s.terminal = .lee)
      (hlevel : ∀ value, level = some value → value < 0) :
      Mueve parser config s (.multipg level) s

theorem empieza_cases (parser : Parser) (config : Config) (s t : Hilos) (e : Residue × Event)
    (turno : List (Residue × Event)) (h : s.empieza parser config e turno = some t) :
    ∃ deja, s.kernel.serve parser config e = some deja
      ∧ t = { s with servidor := .atiende e turno deja } := by
  unfold Hilos.empieza at h
  split at h
  · rename_i deja hdeja
    exact ⟨deja, hdeja, (Option.some.inj h).symm⟩
  · simp only [reduceCtorEq] at h

theorem mueve_of_step (parser : Parser) (config : Config) (s t : Hilos) (p : Paso)
    (h : s.step parser config p = some t) : s.Mueve parser config p t := by
  cases p with
  | select listos r res =>
      simp only [Hilos.step] at h
      split at h
      · rename_i hservidor
        split at h
        · rename_i hlistos
          rw [← Option.some.inj h]
          exact .select listos r res hservidor (List.all_eq_true.mp hlistos)
        · simp only [reduceCtorEq] at h
      · simp only [reduceCtorEq] at h
  | siguiente =>
      simp only [Hilos.step] at h
      split at h
      · rename_i e turno hservidor
        split at h
        -- The event needs the mutex, and waits for it; or it is begun at once.
        · rename_i hmutex
          rw [← Option.some.inj h]
          exact .aguarda e turno hservidor hmutex
        · rename_i hmutex
          rcases empieza_cases parser config s t e turno h with ⟨deja, hdeja, rfl⟩
          exact .empieza e turno deja hservidor (Bool.not_eq_true _ ▸ hmutex) hdeja
      · simp only [reduceCtorEq] at h
  | toma =>
      simp only [Hilos.step] at h
      split at h
      · rename_i e turno hservidor hmutex
        rcases empieza_cases parser config _ t e turno h with ⟨deja, hdeja, rfl⟩
        exact .toma e turno deja hservidor hmutex hdeja
      · simp only [reduceCtorEq] at h
  | termina =>
      simp only [Hilos.step] at h
      split at h
      · rename_i e turno deja hservidor
        rw [← Option.some.inj h]
        exact .termina e turno deja hservidor
      · simp only [reduceCtorEq] at h
  | stop =>
      simp only [Hilos.step] at h
      split at h
      · rename_i hterminal
        rw [← Option.some.inj h]
        exact .stop hterminal
      · simp only [reduceCtorEq] at h
  | detiene =>
      simp only [Hilos.step] at h
      split at h
      · rename_i hterminal hmutex
        rw [← Option.some.inj h]
        exact .detiene hterminal hmutex
      · simp only [reduceCtorEq] at h
  | restart =>
      simp only [Hilos.step] at h
      split at h
      · rename_i hterminal hmutex
        rw [← Option.some.inj h]
        exact .restart hterminal hmutex
      · simp only [reduceCtorEq] at h
  | kill pid =>
      simp only [Hilos.step] at h
      split at h
      · rename_i hterminal
        rw [← Option.some.inj h]
        exact .kill pid hterminal
      · simp only [reduceCtorEq] at h
  | ronda =>
      simp only [Hilos.step] at h
      split at h
      · rename_i pid hterminal
        exact .ronda pid t hterminal h
      · simp only [reduceCtorEq] at h
  | multipg level =>
      simp only [Hilos.step] at h
      split at h
      · rename_i hterminal
        cases level with
        | none =>
            rw [← Option.some.inj h]
            exact .muestra none hterminal fun value hc => absurd hc (by simp)
        | some level =>
            simp only at h
            split at h
            -- A negative level is refused, and nothing is changed.
            · rename_i hlevel
              rw [← Option.some.inj h]
              exact .muestra (some level) hterminal fun value hc => Option.some.inj hc ▸ hlevel
            · rename_i hlevel
              exact .nivel level t hterminal hlevel h
      · simp only [reduceCtorEq] at h

/-- What the terminal changes, it changes in what the kernel has and in what a handler will
    leave. -/
theorem cambia_cases (s t : Hilos) (usa : Event → Bool) (f : State → State)
    (h : s.cambia usa f = some t) :
    (∃ e turno deja, s.servidor = .atiende e turno deja ∧ usa e.2 = false
        ∧ t = { s with kernel := f s.kernel, servidor := .atiende e turno (f deja) })
      ∨ ((∀ e turno deja, s.servidor ≠ .atiende e turno deja)
        ∧ t = { s with kernel := f s.kernel }) := by
  unfold Hilos.cambia at h
  split at h
  · rename_i e turno deja hservidor
    split at h
    · simp only [reduceCtorEq] at h
    · rename_i husa
      exact Or.inl ⟨e, turno, deja, hservidor, Bool.not_eq_true _ ▸ husa,
        (Option.some.inj h).symm⟩
  · rename_i hservidor
    exact Or.inr ⟨hservidor, (Option.some.inj h).symm⟩

/-! ### The order of the handlers -/

/-- What the two threads may take for granted of each other: the server holds the mutex in the
    handlers that need it and nowhere else, and a handler will leave what it would leave if it
    ran now. -/
def Hilos.Coherente (parser : Parser) (config : Config) (s : Hilos) : Prop :=
  match s.servidor with
  | .recorre _ => s.mutex ≠ some .initServer
  | .espera e _ => e.2.bajoMutex = true ∧ s.mutex ≠ some .initServer
  | .atiende e _ deja =>
      s.kernel.serve parser config e = some deja
        ∧ (s.mutex = some .initServer ↔ e.2.bajoMutex = true)

/-- Nothing changes for the server when the mutex passes between the terminal and nobody. -/
theorem coherente_of_mutex (parser : Parser) (config : Config) (s t : Hilos)
    (hs : s.Coherente parser config) (hkernel : t.kernel = s.kernel)
    (hservidor : t.servidor = s.servidor)
    (hmutex : t.mutex = some .initServer ↔ s.mutex = some .initServer) :
    t.Coherente parser config := by
  unfold Hilos.Coherente at hs ⊢
  simp only [hkernel, hservidor, ne_eq, hmutex]
  exact hs

/-- Nor when the terminal changes what the handler does not use. -/
theorem coherente_of_cambia (parser : Parser) (config : Config) (s t : Hilos)
    (usa : Event → Bool) (f : State → State) (hs : s.Coherente parser config)
    (hf : ∀ (k : State) (e : Residue × Event), usa e.2 = false →
      (f k).serve parser config e = (k.serve parser config e).map f)
    (h : s.cambia usa f = some t) : t.Coherente parser config := by
  unfold Hilos.Coherente at hs ⊢
  rcases cambia_cases s t usa f h with ⟨e, turno, deja, hservidor, husa, rfl⟩ | ⟨hservidor, rfl⟩
  · rw [hservidor] at hs
    refine ⟨?_, hs.2⟩
    rw [hf s.kernel e husa, hs.1]
    rfl
  · cases hcase : s.servidor with
    | recorre turno =>
        rw [hcase] at hs
        exact hs
    | espera e turno =>
        rw [hcase] at hs
        exact hs
    | atiende e turno deja => exact absurd hcase (hservidor e turno deja)

theorem coherente_mueve (parser : Parser) (config : Config) (s t : Hilos) (p : Paso)
    (hs : s.Coherente parser config) (h : s.Mueve parser config p t) :
    t.Coherente parser config := by
  cases h with
  | select listos r res hservidor hlistos =>
      unfold Hilos.Coherente at hs ⊢
      rw [hservidor] at hs
      exact hs
  | aguarda e turno hservidor hmutex =>
      unfold Hilos.Coherente at hs ⊢
      rw [hservidor] at hs
      exact ⟨hmutex, hs⟩
  | empieza e turno deja hservidor hmutex hdeja =>
      unfold Hilos.Coherente at hs ⊢
      rw [hservidor] at hs
      refine ⟨hdeja, ?_⟩
      simp only [hmutex, Bool.false_eq_true, iff_false]
      exact hs
  | toma e turno deja hservidor hmutex hdeja =>
      unfold Hilos.Coherente at hs ⊢
      rw [hservidor] at hs
      exact ⟨hdeja, iff_of_true rfl hs.1⟩
  | termina e turno deja hservidor =>
      unfold Hilos.Coherente at hs ⊢
      rw [hservidor] at hs
      simp only [ne_eq]
      -- A handler under the mutex gives it back; in the others it is not the server's.
      split
      · simp only [reduceCtorEq, not_false_eq_true]
      · rename_i hmutex
        exact fun hc => hmutex (hs.2.mp hc)
  | stop hterminal => exact coherente_of_mutex parser config s _ hs rfl rfl Iff.rfl
  | detiene hterminal hmutex =>
      refine coherente_of_mutex parser config s _ hs rfl rfl ?_
      simp only [hmutex, reduceCtorEq, Option.some.injEq]
  | restart hterminal hmutex =>
      refine coherente_of_mutex parser config s _ hs rfl rfl ?_
      simp only [hmutex, reduceCtorEq, Option.some.injEq]
  | kill pid hterminal => exact coherente_of_mutex parser config s _ hs rfl rfl Iff.rfl
  | ronda pid t hterminal hcambia =>
      refine coherente_of_cambia parser config _ t Event.usaColas _ ?_ ?_ hcambia
      · exact coherente_of_mutex parser config s _ hs rfl rfl Iff.rfl
      · exact fun k e husa => serve_terminalKill parser config k e pid husa
  | nivel level t hterminal hlevel hcambia =>
      refine coherente_of_cambia parser config s t Event.usaNivel _ hs ?_ hcambia
      exact fun k e husa => serve_multipg parser config k e level husa
  | muestra level hterminal hlevel => exact hs

/-- What a step completes brings the kernel from what it was to what it is. -/
theorem hechos_mueve (parser : Parser) (config : Config) (s t : Hilos) (p : Paso)
    (hs : s.Coherente parser config) (h : s.Mueve parser config p t) :
    run (actua parser config) s.kernel (s.hechos p) = some t.kernel := by
  cases h with
  | select listos r res hservidor hlistos => rfl
  | aguarda e turno hservidor hmutex => rfl
  | empieza e turno deja hservidor hmutex hdeja => rfl
  | toma e turno deja hservidor hmutex hdeja => rfl
  | termina e turno deja hservidor =>
      -- What the handler leaves was fixed when it began, and nothing has changed since.
      unfold Hilos.Coherente at hs
      rw [hservidor] at hs
      simp only [Hilos.hechos, hservidor]
      exact (run_cons _ _ _ _ []).mpr ⟨deja, hs.1, rfl⟩
  | stop hterminal => rfl
  | detiene hterminal hmutex => rfl
  | restart hterminal hmutex => rfl
  | kill pid hterminal => rfl
  | ronda pid t hterminal hcambia =>
      have hkernel : t.kernel = terminalKill s.kernel pid := by
        rcases cambia_cases _ t _ _ hcambia with ⟨_, _, _, _, _, rfl⟩ | ⟨_, rfl⟩ <;> rfl
      simp only [Hilos.hechos, hterminal, hkernel]
      split
      -- A round that finds nobody changes nothing, and is not among what has been done.
      · rename_i hfound
        refine (run_cons _ _ _ _ []).mpr ⟨_, ?_, rfl⟩
        rw [actua, if_pos hfound]
      · rename_i hfound
        rw [terminalKill_idle s.kernel pid (Bool.not_eq_true _ ▸ hfound)]
        rfl
  | nivel level t hterminal hlevel hcambia =>
      have hkernel : t.kernel = s.kernel.conNivel level := by
        rcases cambia_cases s t _ _ hcambia with ⟨_, _, _, _, _, rfl⟩ | ⟨_, rfl⟩ <;> rfl
      simp only [Hilos.hechos, if_neg hlevel, hkernel]
      rfl
  | muestra level hterminal hlevel => cases level with
    | none => rfl
    | some level =>
        simp only [Hilos.hechos, if_pos (hlevel level rfl)]
        rfl

/-- What the terminal changes is nothing that waits. -/
theorem pendientes_cambia (s t : Hilos) (usa : Event → Bool) (f : State → State)
    (h : s.cambia usa f = some t) : t.pendientes = s.pendientes := by
  unfold Hilos.pendientes
  rcases cambia_cases s t usa f h with ⟨e, turno, deja, hservidor, -, rfl⟩ | ⟨-, rfl⟩
  · simp only [hservidor]
  · rfl

/-- What comes is handled or waits. -/
theorem pendientes_mueve (parser : Parser) (config : Config) (s t : Hilos) (p : Paso)
    (h : s.Mueve parser config p t) :
    (s.hechos p).filterMap Acto.servido ++ t.pendientes = s.pendientes ++ s.llegados p := by
  cases h with
  | select listos r res hservidor hlistos =>
      simp only [Hilos.pendientes, Hilos.hechos, Hilos.llegados, hservidor, List.filterMap_nil,
        List.nil_append]
  | aguarda e turno hservidor hmutex =>
      simp only [Hilos.pendientes, Hilos.hechos, Hilos.llegados, hservidor, List.filterMap_nil,
        List.nil_append, List.append_nil]
  | empieza e turno deja hservidor hmutex hdeja =>
      simp only [Hilos.pendientes, Hilos.hechos, Hilos.llegados, hservidor, List.filterMap_nil,
        List.nil_append, List.append_nil]
  | toma e turno deja hservidor hmutex hdeja =>
      simp only [Hilos.pendientes, Hilos.hechos, Hilos.llegados, hservidor, List.filterMap_nil,
        List.nil_append, List.append_nil]
  | termina e turno deja hservidor =>
      simp only [Hilos.pendientes, Hilos.hechos, Hilos.llegados, hservidor, List.append_nil]
      rfl
  | stop hterminal => exact (List.append_nil _).symm
  | detiene hterminal hmutex => exact (List.append_nil _).symm
  | restart hterminal hmutex => exact (List.append_nil _).symm
  | kill pid hterminal => exact (List.append_nil _).symm
  | ronda pid t hterminal hcambia =>
      -- A round is not an event of the server.
      have hnadie : (s.hechos .ronda).filterMap Acto.servido = [] := by
        simp only [Hilos.hechos, hterminal]
        split <;> rfl
      rw [hnadie, pendientes_cambia _ t _ _ hcambia]
      exact (List.append_nil _).symm
  | nivel level t hterminal hlevel hcambia =>
      have hnadie : (s.hechos (.multipg (some level))).filterMap Acto.servido = [] := by
        simp only [Hilos.hechos, if_neg hlevel]
        rfl
      rw [hnadie, pendientes_cambia s t _ _ hcambia]
      exact (List.append_nil _).symm
  | muestra level hterminal hlevel =>
      have hnadie : (s.hechos (.multipg level)).filterMap Acto.servido = [] := by
        cases level with
        | none => rfl
        | some level =>
            simp only [Hilos.hechos, if_pos (hlevel level rfl)]
            rfl
      rw [hnadie]
      exact (List.append_nil _).symm

theorem coherente_run (parser : Parser) (config : Config) (k : State) (ps : List Paso) (s : Hilos)
    (h : run (Hilos.step parser config) (Hilos.inicio k) ps = some s) :
    s.Coherente parser config := by
  refine run_invariant _ (fun s => s.Coherente parser config) ?_ _ s ps ?_ h
  · exact fun s p t hs ht => coherente_mueve parser config s t p hs
      (mueve_of_step parser config s t p ht)
  · unfold Hilos.Coherente Hilos.inicio
    simp only [ne_eq, reduceCtorEq, not_false_eq_true]

/-- In every order of the threads' steps the kernel's data are what the acts make of them one
    after another, what has come has been handled or waits, once and in its order, and the
    server is in a handler that needs the mutex only while the mutex is its own. -/
theorem threads_serialize (parser : Parser) (config : Config) (k : State) (ps : List Paso)
    (s : Hilos) (h : run (Hilos.step parser config) (Hilos.inicio k) ps = some s) :
    run (actua parser config) k
        (record (Hilos.step parser config) Hilos.hechos (Hilos.inicio k) ps) = some s.kernel
      ∧ (record (Hilos.step parser config) Hilos.hechos (Hilos.inicio k) ps).filterMap
          Acto.servido ++ s.pendientes
        = record (Hilos.step parser config) Hilos.llegados (Hilos.inicio k) ps
      ∧ ∀ e turno deja, s.servidor = .atiende e turno deja →
          (s.mutex = some .initServer ↔ e.2.bajoMutex = true) := by
  have hcoherente := coherente_run parser config k ps s h
  refine ⟨?_, ?_, ?_⟩
  · refine record_run (Hilos.step parser config) (actua parser config) Hilos.hechos
      (fun s => s.kernel) (fun s => s.Coherente parser config) ?_ ?_ _ s ps ?_ h
    · exact fun s p t hs ht => coherente_mueve parser config s t p hs
        (mueve_of_step parser config s t p ht)
    · exact fun s p t hs ht => hechos_mueve parser config s t p hs
        (mueve_of_step parser config s t p ht)
    · exact coherente_run parser config k [] _ rfl
  · rw [record_filterMap]
    have hconserva := faithful_run (Hilos.step parser config) Hilos.pendientes Hilos.llegados
      (fun s p => (s.hechos p).filterMap Acto.servido)
      (fun s p t ht => pendientes_mueve parser config s t p
        (mueve_of_step parser config s t p ht)) _ s ps h
    exact hconserva
  · intro e turno deja hservidor
    unfold Hilos.Coherente at hcoherente
    rw [hservidor] at hcoherente
    exact hcoherente.2

/-- A console connects, and the terminal gets the mutex before the round does. -/
def sampleParada : List Paso :=
  [.select [(sampleResidue, .connectConsole 5)] sampleResidue 1, .siguiente, .stop, .termina,
    .siguiente, .detiene]

theorem sampleParada_taken :
    ((run (Hilos.step sampleParser sampleConfig) (Hilos.inicio (State.init 3 4 [] 0))
      sampleParada).map fun s => (s.mutex, s.pendientes.length))
      = some (some .terminal, 1) := by
  decide

theorem sampleParada_serialized : ∃ s,
    run (Hilos.step sampleParser sampleConfig) (Hilos.inicio (State.init 3 4 [] 0)) sampleParada
        = some s
      ∧ run (actua sampleParser sampleConfig) (State.init 3 4 [] 0)
        (record (Hilos.step sampleParser sampleConfig) Hilos.hechos
          (Hilos.inicio (State.init 3 4 [] 0)) sampleParada) = some s.kernel := by
  rcases Option.map_eq_some_iff.mp sampleParada_taken with ⟨s, hs, -⟩
  exact ⟨s, hs, (threads_serialize sampleParser sampleConfig _ sampleParada s hs).1⟩

end Kernel

end Esther
