import Esther.Theory.Terminal

/-!
# While the Planning Is Stopped

What the kernel still does between `stop` and `restart`.

The terminal holds `mutex_planificacion` all this time, and the server comes to a halt at the
first event that needs it. Before that it handles connections and the ends of consoles, and the
terminal can look for processes and take them out of the queues. All of this only takes
processes out (`Parado`). So a process that is in none of the queues does not turn up while the
planning is stopped.

This is what makes `stop` dangerous. `kill` goes on looking until it finds its process, and the
terminal that looks is the one that would give the mutex back. `restart_reachable_iff` says
exactly when that can still happen.

## Main definitions

* `Parado`: What the kernel still does.
* `Hilos.Atascado`: The terminal does not come back.

## Theorems

* `parado_actua`: The acts that need no mutex.
* `stopped_until_restart`: What happens from `stop` to `restart`.
* `restart_reachable_iff`: Whether there is a `restart` to come.
-/

namespace Esther

namespace Kernel

open Serial Transition Lines

/-! ### What is still done -/

/-- The packets the kernel sends to greet a CPU and to tell that a program has ended. -/
def esAviso (packet : Packet) : Prop :=
  packet.header.opcode = .OP_KE_SEND_STACK_SIZE ∨ packet.header.opcode = .OP_KE_PROGRAM_END
    ∨ packet.header.opcode = .OP_ME_FINPRO

/-- Nobody has entered a queue but `pcb_exit`, the counters of the semaphores are what they
    were, no CPU has been given anything to do or has taken anything back, and nothing has been
    sent but notices. -/
structure Parado (k u : State) : Prop where
  generatorPid : u.generatorPid = k.generatorPid
  codesMs : u.codesMs = k.codesMs
  semAnsisop : u.semAnsisop = k.semAnsisop
  sharedValues : u.sharedValues = k.sharedValues
  cpuExecuting : u.cpuExecuting = k.cpuExecuting
  cpuConectadas : k.cpuConectadas <+: u.cpuConectadas
  colas : ∀ status, status ≠ .EXIT → (u.statusQueue status).Sublist (k.statusQueue status)
  avisos : ∀ fd, ∃ packets, u.wire fd = k.wire fd ++ packets ∧ ∀ packet ∈ packets, esAviso packet

theorem parado_refl (k : State) : Parado k k where
  generatorPid := rfl
  codesMs := rfl
  semAnsisop := rfl
  sharedValues := rfl
  cpuExecuting := rfl
  cpuConectadas := List.prefix_refl _
  colas := fun _ _ => List.Sublist.refl _
  avisos := fun _ => ⟨[], (List.append_nil _).symm, fun _ hpacket => absurd hpacket List.not_mem_nil⟩

theorem parado_trans (k u v : State) (h : Parado k u) (h' : Parado u v) : Parado k v where
  generatorPid := h'.generatorPid.trans h.generatorPid
  codesMs := h'.codesMs.trans h.codesMs
  semAnsisop := h'.semAnsisop.trans h.semAnsisop
  sharedValues := h'.sharedValues.trans h.sharedValues
  cpuExecuting := h'.cpuExecuting.trans h.cpuExecuting
  cpuConectadas := h.cpuConectadas.trans h'.cpuConectadas
  colas := fun status hstatus => (h'.colas status hstatus).trans (h.colas status hstatus)
  avisos := by
    intro fd
    rcases h.avisos fd with ⟨packets, hwire, hpackets⟩
    rcases h'.avisos fd with ⟨packets', hwire', hpackets'⟩
    refine ⟨packets ++ packets', by rw [hwire', hwire, List.append_assoc], fun packet hpacket => ?_⟩
    rcases List.mem_append.mp hpacket with hmem | hmem
    · exact hpackets packet hmem
    · exact hpackets' packet hmem

/-- A notice is sent. -/
theorem parado_send (k : State) (fd : Int) (packet : Packet) (h : esAviso packet) :
    Parado k (k.send fd packet) where
  generatorPid := rfl
  codesMs := rfl
  semAnsisop := rfl
  sharedValues := rfl
  cpuExecuting := rfl
  cpuConectadas := List.prefix_refl _
  colas := fun status _ => by cases status <;> exact List.Sublist.refl _
  avisos := by
    intro other
    by_cases hfd : other = fd
    · refine ⟨[packet], ?_, fun p hp => List.mem_singleton.mp hp ▸ h⟩
      rw [hfd]
      exact Function.update_self _ _ _
    · refine ⟨[], ?_, fun p hp => absurd hp List.not_mem_nil⟩
      rw [List.append_nil]
      exact Function.update_of_ne hfd _ _

/-- Processes leave the queues. -/
theorem parado_of_colas (k u : State) (hgenerator : u.generatorPid = k.generatorPid)
    (hcodes : u.codesMs = k.codesMs) (hsem : u.semAnsisop = k.semAnsisop)
    (hshared : u.sharedValues = k.sharedValues) (hexecuting : u.cpuExecuting = k.cpuExecuting)
    (hcpus : u.cpuConectadas = k.cpuConectadas) (hwire : u.wire = k.wire)
    (hcolas : ∀ status, status ≠ .EXIT → (u.statusQueue status).Sublist (k.statusQueue status)) :
    Parado k u where
  generatorPid := hgenerator
  codesMs := hcodes
  semAnsisop := hsem
  sharedValues := hshared
  cpuExecuting := hexecuting
  cpuConectadas := hcpus ▸ List.prefix_refl _
  colas := hcolas
  avisos := fun fd => ⟨[], by rw [hwire, List.append_nil], fun p hp => absurd hp List.not_mem_nil⟩

theorem parado_endProgram (k : State) (r : Residue) (pcb : Pcb) (code : Int) :
    Parado k (k.endProgram r pcb code) := by
  simp only [State.endProgram]
  -- The process leaves the queues, then its console is told, if there is one, and the memory.
  generalize hsin : State.pcbRemove k r { pcb with exitCode := code } = sin
  have hcolas : Parado k { sin with pcbExit := sin.pcbExit ++ [{ pcb with exitCode := code }] } := by
    rw [← hsin]
    refine parado_of_colas k _ rfl rfl rfl rfl rfl rfl rfl fun status hstatus => ?_
    cases status with
    | NEW => exact List.filter_sublist
    | READY => exact List.filter_sublist
    | EXEC => exact List.filter_sublist
    | BLOCK => exact List.filter_sublist
    | EXIT => exact absurd rfl hstatus
  split
  · refine parado_trans k _ _ (parado_trans k _ _ hcolas (parado_send _ _ _ ?_))
      (parado_send _ _ _ ?_)
    · exact Or.inr (Or.inl rfl)
    · exact Or.inr (Or.inr rfl)
  · refine parado_trans k _ _ hcolas (parado_send _ _ _ ?_)
    exact Or.inr (Or.inr rfl)

theorem parado_endConsolePrograms (r : Residue) (k : State) (pids : List Int) :
    Parado k (endConsolePrograms r k pids) := by
  induction pids generalizing k with
  | nil => exact parado_refl k
  | cons pid pids ih =>
      by_cases hends : k.ends pid
      · rcases endConsolePrograms_ends r k pid pids hends with ⟨pcb, -, hloop⟩
        rw [hloop]
        exact parado_trans _ _ _ (parado_endProgram k r pcb exitConsoleKilled) (ih _)
      · rw [endConsolePrograms_skips r k pid pids hends]
        exact ih k

theorem parado_destroyConsole (k : State) (r : Residue) (client : Client) :
    Parado k (destroyConsole k r client) := by
  refine parado_trans k _ _ ?_ (parado_endConsolePrograms r _ client.pids)
  refine parado_of_colas k _ rfl rfl rfl rfl rfl rfl rfl fun status _ => ?_
  cases status <;> exact List.Sublist.refl _

theorem parado_terminalKill (k : State) (pid : Int) : Parado k (terminalKill k pid) := by
  refine parado_of_colas k _ rfl rfl rfl rfl rfl rfl rfl fun status hstatus => ?_
  cases status with
  | NEW => exact killIn_sublist pid k.pcbNew
  | READY => exact killIn_sublist pid k.pcbReady
  | EXEC => exact List.Sublist.refl _
  | BLOCK => exact killIn_sublist pid k.pcbBlock
  | EXIT => exact absurd rfl hstatus

/-- The acts that need no mutex. -/
def Acto.libre : Acto → Bool
  | .evento e => !e.2.bajoMutex
  | _ => true

theorem parado_actua (parser : Parser) (config : Config) (k u : State) (acto : Acto)
    (hlibre : acto.libre = true) (h : actua parser config k acto = some u) : Parado k u := by
  cases acto with
  | evento e =>
      rcases e with ⟨r, event⟩
      unfold actua at h
      cases event with
      | connectConsole fd =>
          rw [step_connectConsole parser config k u r fd h]
          refine parado_of_colas k _ rfl rfl rfl rfl rfl rfl rfl fun status _ => ?_
          cases status <;> exact List.Sublist.refl _
      | connectCpu fd =>
          rw [step_connectCpu parser config k u r fd h]
          refine parado_trans k _ _ ?_ (parado_send _ _ _ (Or.inl rfl))
          have hk := parado_refl k
          exact { hk with
            cpuConectadas := List.prefix_append _ _
            colas := fun status _ => by cases status <;> exact List.Sublist.refl _ }
      -- These three need the mutex.
      | newProgram console program => simp [Acto.libre, Event.bajoMutex] at hlibre
      | planificacion res => simp [Acto.libre, Event.bajoMutex] at hlibre
      | syscall cpu packet siguientes => simp [Acto.libre, Event.bajoMutex] at hlibre
      | destroyConsole client =>
          rw [step_destroyConsole parser config k u r client h]
          exact parado_destroyConsole k r client
      | kill pid =>
          rw [(step_kill parser config k u r pid h).2]
          exact parado_terminalKill k pid
  | kill pid =>
      simp only [actua] at h
      split at h
      · rw [← Option.some.inj h]
        exact parado_terminalKill k pid
      · simp only [reduceCtorEq] at h
  | multipg level =>
      simp only [actua] at h
      rw [← Option.some.inj h]
      refine parado_of_colas k _ rfl rfl rfl rfl rfl rfl rfl fun status _ => ?_
      cases status <;> exact List.Sublist.refl _

theorem parado_run (parser : Parser) (config : Config) (k u : State) (actos : List Acto)
    (hlibres : ∀ acto ∈ actos, acto.libre = true)
    (h : run (actua parser config) k actos = some u) : Parado k u := by
  induction actos generalizing k with
  | nil =>
      rw [run_nil, Option.some.injEq] at h
      exact h ▸ parado_refl k
  | cons acto actos ih =>
      rcases (run_cons _ k u acto actos).mp h with ⟨v, hv, hrest⟩
      refine parado_trans k v u ?_ (ih v (fun a ha => hlibres a (List.mem_cons_of_mem _ ha)) hrest)
      exact parado_actua parser config k v acto (hlibres acto List.mem_cons_self) hv

/-- Only `restart` takes the mutex from the terminal, and without it no handler that needs it
    comes to its end. -/
theorem detenido_mueve (parser : Parser) (config : Config) (s t : Hilos) (p : Paso)
    (hs : s.Coherente parser config) (hmutex : s.mutex = some .terminal) (hp : p ≠ .restart)
    (h : s.Mueve parser config p t) :
    t.mutex = some .terminal ∧ ∀ acto ∈ s.hechos p, acto.libre = true := by
  cases h with
  | select listos r res hservidor hlistos =>
      exact ⟨hmutex, fun acto hacto => absurd hacto List.not_mem_nil⟩
  | aguarda e turno hservidor _ => exact ⟨hmutex, fun acto hacto => absurd hacto List.not_mem_nil⟩
  | empieza e turno deja hservidor _ hdeja =>
      exact ⟨hmutex, fun acto hacto => absurd hacto List.not_mem_nil⟩
  | toma e turno deja hservidor hnadie hdeja =>
      rw [hmutex] at hnadie
      simp only [reduceCtorEq] at hnadie
  | termina e turno deja hservidor =>
      -- A handler that needs the mutex would have it.
      unfold Hilos.Coherente at hs
      rw [hservidor] at hs
      have hajeno : e.2.bajoMutex = false := by
        rw [← Bool.not_eq_true, ← hs.2, hmutex]
        simp only [Option.some.injEq, reduceCtorEq, not_false_eq_true]
      refine ⟨?_, fun acto hacto => ?_⟩
      · simp only [hajeno, Bool.false_eq_true, if_false]
        exact hmutex
      · simp only [Hilos.hechos, hservidor, List.mem_singleton] at hacto
        rw [hacto]
        simp only [Acto.libre, hajeno, Bool.not_false]
  | stop hterminal => exact ⟨hmutex, fun acto hacto => absurd hacto List.not_mem_nil⟩
  | detiene hterminal hnadie =>
      rw [hmutex] at hnadie
      simp only [reduceCtorEq] at hnadie
  | restart hterminal _ => exact absurd rfl hp
  | kill pid hterminal => exact ⟨hmutex, fun acto hacto => absurd hacto List.not_mem_nil⟩
  | ronda pid t hterminal hcambia =>
      refine ⟨?_, fun acto hacto => ?_⟩
      · rcases cambia_cases _ t _ _ hcambia with ⟨_, _, _, _, _, rfl⟩ | ⟨_, rfl⟩ <;> exact hmutex
      · simp only [Hilos.hechos, hterminal] at hacto
        split at hacto
        · rw [List.mem_singleton.mp hacto]
          rfl
        · exact absurd hacto List.not_mem_nil
  | nivel level t hterminal hlevel hcambia =>
      refine ⟨?_, fun acto hacto => ?_⟩
      · rcases cambia_cases s t _ _ hcambia with ⟨_, _, _, _, _, rfl⟩ | ⟨_, rfl⟩ <;> exact hmutex
      · simp only [Hilos.hechos, if_neg hlevel, List.mem_singleton] at hacto
        rw [hacto]
        rfl
  | muestra level hterminal hlevel =>
      refine ⟨hmutex, fun acto hacto => ?_⟩
      cases level with
      | none => exact absurd hacto List.not_mem_nil
      | some level =>
          simp only [Hilos.hechos, if_pos (hlevel level rfl)] at hacto
          exact absurd hacto List.not_mem_nil

theorem detenido_run (parser : Parser) (config : Config) (s t : Hilos) (ps : List Paso)
    (hs : s.Coherente parser config) (hmutex : s.mutex = some .terminal)
    (hps : ∀ p ∈ ps, p ≠ .restart) (h : run (Hilos.step parser config) s ps = some t) :
    t.mutex = some .terminal ∧ ∀ acto ∈ record (Hilos.step parser config) Hilos.hechos s ps,
      acto.libre = true := by
  induction ps generalizing s with
  | nil =>
      rw [run_nil, Option.some.injEq] at h
      exact ⟨h ▸ hmutex, fun acto hacto => absurd hacto List.not_mem_nil⟩
  | cons p ps ih =>
      rcases (run_cons _ s t p ps).mp h with ⟨u, hu, hrest⟩
      have hmueve := mueve_of_step parser config s u p hu
      rcases detenido_mueve parser config s u p hs hmutex (hps p List.mem_cons_self) hmueve with
        ⟨hmutex', hlibres⟩
      rcases ih u (coherente_mueve parser config s u p hs hmueve) hmutex'
        (fun q hq => hps q (List.mem_cons_of_mem _ hq)) hrest with ⟨hfinal, hactos⟩
      refine ⟨hfinal, fun acto hacto => ?_⟩
      rw [record_cons _ _ s u p ps hu] at hacto
      rcases List.mem_append.mp hacto with hmem | hmem
      · exact hlibres acto hmem
      · exact hactos acto hmem

/-- From `stop` to `restart` nothing is planned, in no order of the threads' steps: nobody enters
    a queue but `pcb_exit`, no CPU is given a process and none is heard. What the server handles
    meanwhile are connections and consoles that leave. -/
theorem stopped_until_restart (parser : Parser) (config : Config) (k : State) (qs ps : List Paso)
    (s t : Hilos) (hqs : run (Hilos.step parser config) (Hilos.inicio k) qs = some s)
    (hmutex : s.mutex = some .terminal) (hps : ∀ p ∈ ps, p ≠ .restart)
    (h : run (Hilos.step parser config) s ps = some t) :
    t.mutex = some .terminal ∧ Parado s.kernel t.kernel
      ∧ ∀ e ∈ (record (Hilos.step parser config) Hilos.hechos s ps).filterMap Acto.servido,
        e.2.bajoMutex = false := by
  have hcoherente := coherente_run parser config k qs s hqs
  rcases detenido_run parser config s t ps hcoherente hmutex hps h with ⟨hfinal, hlibres⟩
  have hacts : run (actua parser config) s.kernel
      (record (Hilos.step parser config) Hilos.hechos s ps) = some t.kernel := by
    refine record_run (Hilos.step parser config) (actua parser config) Hilos.hechos
      (fun s => s.kernel) (fun s => s.Coherente parser config) ?_ ?_ s t ps hcoherente h
    · exact fun s p t hs ht => coherente_mueve parser config s t p hs
        (mueve_of_step parser config s t p ht)
    · exact fun s p t hs ht => hechos_mueve parser config s t p hs
        (mueve_of_step parser config s t p ht)
  refine ⟨hfinal, parado_run parser config _ _ _ hlibres hacts, fun e he => ?_⟩
  rcases List.mem_filterMap.mp he with ⟨acto, hacto, hservido⟩
  cases acto with
  | evento e' =>
      rw [Acto.servido, Option.some.injEq] at hservido
      have hlibre := hlibres _ hacto
      rw [hservido] at hlibre
      simpa only [Acto.libre, Bool.not_eq_true'] using hlibre
  | kill pid => simp only [Acto.servido, reduceCtorEq] at hservido
  | multipg level => simp only [Acto.servido, reduceCtorEq] at hservido

/-- The level is raised, and the terminal looks for a process. -/
def sampleMientras : List Paso :=
  [.multipg (some 7), .kill 1]

theorem sampleMientras_taken :
    ((run (Hilos.step sampleParser sampleConfig) (Hilos.inicio (State.init 3 4 [] 0))
      sampleParada).bind fun s => (run (Hilos.step sampleParser sampleConfig) s
        sampleMientras).map fun t => (s.mutex, t.kernel.multipgLevel))
      = some (some .terminal, 7) := by
  decide

theorem sampleMientras_stopped : ∃ s t,
    run (Hilos.step sampleParser sampleConfig) s sampleMientras = some t
      ∧ Parado s.kernel t.kernel := by
  rcases Option.bind_eq_some_iff.mp sampleMientras_taken with ⟨s, hs, hrest⟩
  rcases Option.map_eq_some_iff.mp hrest with ⟨t, ht, heq⟩
  rw [Prod.mk.injEq] at heq
  refine ⟨s, t, ht, (stopped_until_restart sampleParser sampleConfig _ sampleParada sampleMientras
    s t hs heq.1 ?_ ht).2.1⟩
  simp [sampleMientras]

/-! ### Where `restart` is out of reach -/

theorem killable_of_parado (k u : State) (pid : Int) (h : Parado k u)
    (hk : k.killable pid = false) : u.killable pid = false := by
  rw [← Bool.not_eq_true] at hk ⊢
  refine fun hu => hk ?_
  rcases List.any_eq_true.mp hu with ⟨pcb, hpcb, hpid⟩
  refine List.any_eq_true.mpr ⟨pcb, ?_, hpid⟩
  have hnew := h.colas .NEW (by simp)
  have hblock := h.colas .BLOCK (by simp)
  have hready := h.colas .READY (by simp)
  exact ((hnew.append hblock).append hready).subset hpcb

/-- The terminal waits for the mutex it holds, or looks for a process that is in none of the
    three queues and that the running handler puts in none. -/
def Hilos.Atascado (s : Hilos) : Prop :=
  s.terminal = .espera ∨ ∃ pid, s.terminal = .busca pid ∧ s.deja.killable pid = false

/-- The process that is looked for does not turn up. -/
theorem atascado_mueve (parser : Parser) (config : Config) (s t : Hilos) (p : Paso)
    (hs : s.Coherente parser config) (hmutex : s.mutex = some .terminal) (hatascado : s.Atascado)
    (h : s.Mueve parser config p t) : t.mutex = some .terminal ∧ t.Atascado := by
  have hlee : s.terminal ≠ .lee := by
    rcases hatascado with hespera | ⟨pid, hbusca, -⟩
    · rw [hespera]
      simp only [ne_eq, reduceCtorEq, not_false_eq_true]
    · rw [hbusca]
      simp only [ne_eq, reduceCtorEq, not_false_eq_true]
  have hp : p ≠ .restart := by
    rintro rfl
    cases h with
    | restart hterminal _ => exact hlee hterminal
  refine ⟨(detenido_mueve parser config s t p hs hmutex hp h).1, ?_⟩
  -- Where the terminal does not move, all there is to show is that nobody enters its queues.
  have hparado : ∀ u : Hilos, u.terminal = s.terminal → Parado s.deja u.deja → u.Atascado := by
    intro u hterminal hdeja
    rcases hatascado with hespera | ⟨pid, hbusca, hnadie⟩
    · exact Or.inl (hterminal.trans hespera)
    · exact Or.inr ⟨pid, hterminal.trans hbusca, killable_of_parado _ _ pid hdeja hnadie⟩
  cases h with
  | select listos r res hservidor hlistos =>
      refine hparado _ rfl ?_
      simp only [Hilos.deja, hservidor]
      exact parado_refl _
  | aguarda e turno hservidor _ =>
      refine hparado _ rfl ?_
      simp only [Hilos.deja, hservidor]
      exact parado_refl _
  | empieza e turno deja hservidor hajeno hdeja =>
      refine hparado _ rfl ?_
      simp only [Hilos.deja, hservidor]
      refine parado_actua parser config s.kernel deja (.evento e) ?_ hdeja
      simp only [Acto.libre, hajeno, Bool.not_false]
  | toma e turno deja hservidor hnadie hdeja =>
      rw [hmutex] at hnadie
      simp only [reduceCtorEq] at hnadie
  | termina e turno deja hservidor =>
      refine hparado _ rfl ?_
      simp only [Hilos.deja, hservidor]
      exact parado_refl _
  | stop hterminal => exact absurd hterminal hlee
  | detiene hterminal hnadie =>
      rw [hmutex] at hnadie
      simp only [reduceCtorEq] at hnadie
  | restart hterminal _ => exact absurd hterminal hlee
  | kill pid hterminal => exact absurd hterminal hlee
  | ronda pid t hterminal hcambia =>
      rcases hatascado with hespera | ⟨other, hbusca, hnadie⟩
      · rw [hespera] at hterminal
        simp only [reduceCtorEq] at hterminal
      rw [hbusca, Terminal.busca.injEq] at hterminal
      rw [← hterminal] at hcambia
      rcases cambia_cases _ t _ _ hcambia with ⟨e, turno, deja, hservidor, husa, rfl⟩
        | ⟨hservidor, rfl⟩
      · -- A handler that leaves the queues alone shows what is in them.
        have hservidor' : s.servidor = .atiende e turno deja := hservidor
        unfold Hilos.Coherente at hs
        rw [hservidor'] at hs
        simp only [Hilos.deja, hservidor'] at hnadie
        have hkernel : s.kernel.killable other = false := by
          rw [← killable_serve parser config s.kernel deja e other husa hs.1]
          exact hnadie
        refine Or.inr ⟨other, ?_, ?_⟩
        · simp only [hkernel, Bool.false_eq_true, if_false]
        · exact killable_of_parado deja _ other (parado_terminalKill deja other) hnadie
      · have hdeja : s.deja = s.kernel := by
          unfold Hilos.deja
          split
          · rename_i e turno deja hcase
            exact absurd hcase (hservidor e turno deja)
          · rfl
        rw [hdeja] at hnadie
        refine Or.inr ⟨other, ?_, ?_⟩
        · simp only [hnadie, Bool.false_eq_true, if_false]
        · have hsame : Hilos.deja { s with
              kernel := terminalKill s.kernel other
              terminal := if s.kernel.killable other = true then .lee else .busca other }
              = terminalKill s.kernel other := by
            unfold Hilos.deja
            split
            · rename_i e turno deja hcase
              exact absurd hcase (hservidor e turno deja)
            · rfl
          rw [hsame]
          exact killable_of_parado s.kernel _ other (parado_terminalKill s.kernel other) hnadie
  | nivel level t hterminal hlevel hcambia => exact absurd hterminal hlee
  | muestra level hterminal hlevel => exact absurd hterminal hlee

/-- A terminal that reads a command can give the mutex back. -/
theorem restart_of_lee (parser : Parser) (config : Config) (s : Hilos)
    (hmutex : s.mutex = some .terminal) (hlee : s.terminal = .lee) :
    ∃ t, run (Hilos.step parser config) s [.restart] = some t ∧ t.mutex ≠ some .terminal := by
  refine ⟨{ s with mutex := none }, ?_, ?_⟩
  · refine (run_cons _ _ _ _ []).mpr ⟨{ s with mutex := none }, ?_, rfl⟩
    simp only [Hilos.step, hlee, hmutex]
  · simp only [ne_eq, reduceCtorEq, not_false_eq_true]

/-- So can one that looks for a process that is there, when no handler is running. -/
theorem restart_of_busca (parser : Parser) (config : Config) (s : Hilos) (pid : Int)
    (hmutex : s.mutex = some .terminal) (hbusca : s.terminal = .busca pid)
    (hfound : s.kernel.killable pid = true)
    (hservidor : ∀ e turno deja, s.servidor ≠ .atiende e turno deja) :
    ∃ t, run (Hilos.step parser config) s [.ronda, .restart] = some t
      ∧ t.mutex ≠ some .terminal := by
  have hronda : s.step parser config .ronda
      = some { s with kernel := terminalKill s.kernel pid, terminal := .lee } := by
    simp only [Hilos.step, hbusca, hfound, if_true, Hilos.cambia]
  rcases restart_of_lee parser config
    { s with kernel := terminalKill s.kernel pid, terminal := .lee } hmutex rfl with ⟨t, hrun, ht⟩
  exact ⟨t, (run_cons _ _ _ _ _).mpr ⟨_, hronda, hrun⟩, ht⟩

/-- While the terminal holds the mutex some run gives it back exactly if the terminal reads a
    command, or looks for a process that is there once the running handler has ended. A second
    `stop`, and a `kill` of anything else, stop the kernel for good. -/
theorem restart_reachable_iff (parser : Parser) (config : Config) (k : State) (qs : List Paso)
    (s : Hilos) (hqs : run (Hilos.step parser config) (Hilos.inicio k) qs = some s)
    (hmutex : s.mutex = some .terminal) :
    (∃ ps t, run (Hilos.step parser config) s ps = some t ∧ t.mutex ≠ some .terminal)
      ↔ s.terminal = .lee ∨ ∃ pid, s.terminal = .busca pid ∧ s.deja.killable pid = true := by
  have hcoherente := coherente_run parser config k qs s hqs
  constructor
  · rintro ⟨ps, t, hrun, ht⟩
    by_contra hc
    rw [not_or] at hc
    refine ht ?_
    have hatascado : s.Atascado := by
      cases hterminal : s.terminal with
      | lee => exact absurd hterminal hc.1
      | espera => exact Or.inl hterminal
      | busca pid =>
          refine Or.inr ⟨pid, hterminal, ?_⟩
          rw [← Bool.not_eq_true]
          exact fun hfound => hc.2 ⟨pid, hterminal, hfound⟩
    have hinv := run_invariant (Hilos.step parser config)
      (fun s => s.Coherente parser config ∧ s.mutex = some .terminal ∧ s.Atascado)
      (fun s p u hs hu => ⟨coherente_mueve parser config s u p hs.1
          (mueve_of_step parser config s u p hu),
        atascado_mueve parser config s u p hs.1 hs.2.1 hs.2.2
          (mueve_of_step parser config s u p hu)⟩) s t ps ⟨hcoherente, hmutex, hatascado⟩ hrun
    exact hinv.2.1
  · rintro (hlee | ⟨pid, hbusca, hfound⟩)
    · exact ⟨[.restart], restart_of_lee parser config s hmutex hlee⟩
    · cases hservidor : s.servidor with
      | atiende e turno deja =>
          -- The handler is not under the mutex, which is the terminal's, and ends first.
          unfold Hilos.Coherente at hcoherente
          rw [hservidor] at hcoherente
          have hajeno : e.2.bajoMutex = false := by
            rw [← Bool.not_eq_true, ← hcoherente.2, hmutex]
            simp only [Option.some.injEq, reduceCtorEq, not_false_eq_true]
          simp only [Hilos.deja, hservidor] at hfound
          have htermina : s.step parser config .termina
              = some { s with kernel := deja, servidor := .recorre turno } := by
            simp only [Hilos.step, hservidor, hajeno, Bool.false_eq_true, if_false]
          rcases restart_of_busca parser config { s with kernel := deja, servidor := .recorre turno }
            pid hmutex hbusca hfound (fun _ _ _ hc => by simp only [reduceCtorEq] at hc) with
            ⟨t, hrun, ht⟩
          exact ⟨_, t, (run_cons _ _ _ _ _).mpr ⟨_, htermina, hrun⟩, ht⟩
      | recorre turno =>
          simp only [Hilos.deja, hservidor] at hfound
          refine ⟨_, restart_of_busca parser config s pid hmutex hbusca hfound fun _ _ _ hc => ?_⟩
          rw [hservidor] at hc
          simp only [reduceCtorEq] at hc
      | espera e turno =>
          simp only [Hilos.deja, hservidor] at hfound
          refine ⟨_, restart_of_busca parser config s pid hmutex hbusca hfound fun _ _ _ hc => ?_⟩
          rw [hservidor] at hc
          simp only [reduceCtorEq] at hc

/-- `stop` twice. -/
def sampleDosVeces : List Paso := sampleParada ++ [.stop]

theorem sampleDosVeces_taken :
    ((run (Hilos.step sampleParser sampleConfig) (Hilos.inicio (State.init 3 4 [] 0))
      sampleDosVeces).map fun s => (s.mutex, s.terminal)) = some (some .terminal, .espera) := by
  decide

theorem sampleDosVeces_forever : ∃ s,
    run (Hilos.step sampleParser sampleConfig) (Hilos.inicio (State.init 3 4 [] 0)) sampleDosVeces
        = some s
      ∧ ¬ ∃ ps t, run (Hilos.step sampleParser sampleConfig) s ps = some t
        ∧ t.mutex ≠ some .terminal := by
  rcases Option.map_eq_some_iff.mp sampleDosVeces_taken with ⟨s, hs, heq⟩
  rw [Prod.mk.injEq] at heq
  refine ⟨s, hs, ?_⟩
  rw [restart_reachable_iff sampleParser sampleConfig _ sampleDosVeces s hs heq.1, heq.2]
  simp

end Kernel

end Esther
