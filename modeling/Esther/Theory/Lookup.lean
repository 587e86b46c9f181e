import Esther.Theory.Calls
import Esther.Theory.Messages
import Esther.Theory.Migration

/-!
# Looking Variables Up

Whether `obtenerPosicionVariable` finds what `definirVariable` has put there.

A process is followed step by step and from burst to burst, and beside it, for each of its
contexts, what has been defined in it, in the order in which it was: with which name, and
at which position. A refused variable is not defined. A call opens a context in which
nothing is defined yet, and a return closes the last one.

A variable is looked up by its name, an argument by its number, which is the digit. The
arguments are numbered from zero, and the test of the number is against how many there are,
so that the number after the last one passes: there is nothing in the list for it.

## Main definitions

* `Definicion`, `Seguimiento`: What is recorded, and a process with the records of its
  contexts.
* `State.anota`: The records after a step.
* `buscada`: What a search should find.
* `Conserva`: A burst begins with the stack the process had.
* `PasaElLimite`: The number is the one behind the last argument.

## Theorems

* `obtenerPosicionVariable_vista`, `buscada_vista`: A search and the records depend on the
  same.
* `conserva_mensaje`: The messages of the kernel keep the stack of a process.
* `fiel_step`: Every step keeps the contexts as they are recorded.
* `lookup_exact_iff`: A search finds what it should exactly if the number is not the one
  behind the last argument.
* `argument_behind_last`: An argument `0` that nobody has defined.
-/

namespace Esther

namespace Cpu

open Transition

/-- A variable or an argument that was defined, and the position it was given. -/
structure Definicion where
  identificador : Int
  posicion : Int
deriving DecidableEq

/-- A process on a CPU, with what has been defined in each of its contexts. -/
structure Seguimiento where
  cpu : State
  definiciones : List (List Definicion)

/-- There is room for one more variable. -/
def State.cabe (config : Config) (s : State) : Bool :=
  s.pcbActual.stackPointer + 4 ≤ config.stackSize * config.tamanioPagina

/-- One more definition in the last context, which is opened if there is none. -/
def enUltimo (definiciones : List (List Definicion)) (definicion : Definicion) :
    List (List Definicion) :=
  definiciones.dropLast ++ [definiciones.getLast?.getD [] ++ [definicion]]

/-- What is recorded of the contexts after the next step. -/
def State.anota (config : Config) (r : Residue) (s : State)
    (definiciones : List (List Definicion)) : List (List Definicion) :=
  match s.control with
  | .linea _ (.definirVariable identificador _) =>
      if s.cabe config then enUltimo definiciones
        { identificador := identificador
          posicion := (definirVariable config r s identificador).2 }
      else definiciones
  | .linea _ linea =>
      if linea.callsFunction then definiciones ++ [[]]
      else if linea.ends then definiciones.dropLast
      else definiciones
  | _ => definiciones

/-- A step of the CPU, or the beginning of another burst, on any CPU and with what that CPU has
    of the process. -/
def Seguimiento.step (config : Config) (p : Seguimiento) : Suceso → Option Seguimiento
  | .paso r mem inbox =>
      if p.cpu.enEspera then none
      else (Cpu.step config r p.cpu mem inbox).map fun res =>
        { cpu := res.state, definiciones := p.cpu.anota config r p.definiciones }
  | .reanudar cpu => if p.cpu.enEspera then some { p with cpu := cpu } else none

/-- A burst begins with the stack that the process had. -/
def Conserva (p : Seguimiento) : Suceso → Prop
  | .paso _ _ _ => True
  | .reanudar cpu => cpu.pcbActual.stack = p.cpu.pcbActual.stack

/-- The arguments among the definitions of a context. -/
def argumentos (definidas : List Definicion) : List Definicion :=
  definidas.filter fun definicion => esArgumento definicion.identificador

/-- The variables among the definitions of a context. -/
def locales (definidas : List Definicion) : List Definicion :=
  definidas.filter fun definicion => !esArgumento definicion.identificador

/-- What a search should find: in the last context, the argument with the number or the
    variable with the name, or else `EXIT_FAILURE`. -/
def buscada (config : Config) (definiciones : List (List Definicion)) (identificador : Int) :
    Int :=
  let definidas := definiciones.getLast?.getD []
  let hallada :=
    if esArgumento identificador then (argumentos definidas)[(identificador - 48).toNat]?
    else definidas.find? fun definicion => definicion.identificador == identificador
  match hallada with
  | some definicion => definicion.posicion
  | none => config.puntero 1

/-- The digit is the number of the argument behind the last one. -/
def PasaElLimite (s : State) (identificador : Int) : Prop :=
  esArgumento identificador = true ∧ ∃ contexto, s.pcbActual.stack.getLast? = some contexto ∧
    identificador - 48 = contexto.args.length

/-! ### What a search depends on -/

/-- What a search can find in a context: the positions of its arguments, and its variables by
    their names. -/
def vista (config : Config) (contexto : Stack) : List Int × List (Int × Int) :=
  (contexto.args.map fun v => config.puntero (posicion config v),
    contexto.vars.map fun v => (v.id, config.puntero (posicion config v)))

/-- The same for the definitions of a context. -/
def vistaDefinida (definidas : List Definicion) : List Int × List (Int × Int) :=
  ((argumentos definidas).map Definicion.posicion,
    (locales definidas).map fun definicion => (definicion.identificador, definicion.posicion))

/-- The contexts are as they are recorded. -/
def Seguimiento.Fiel (config : Config) (p : Seguimiento) : Prop :=
  p.definiciones.map vistaDefinida = p.cpu.pcbActual.stack.map (vista config)

/-- The first variable with a name. -/
def porNombre (vars : List (Int × Int)) (identificador : Int) : Option Int :=
  (vars.find? fun v => v.1 == identificador).map Prod.snd

/-- What is found in a context. -/
theorem obtenerPosicionVariable_vista (config : Config) (s : State) (identificador : Int)
    (contexto : Stack) (hlast : s.pcbActual.stack.getLast? = some contexto) :
    obtenerPosicionVariable config s identificador =
      if esArgumento identificador then
        if identificador - 48 > contexto.args.length then some (config.puntero 1)
        else (vista config contexto).1[(identificador - 48).toNat]?
      else some ((porNombre (vista config contexto).2 identificador).getD (config.puntero 1)) := by
  simp only [obtenerPosicionVariable, hlast]
  by_cases harg : esArgumento identificador = true
  · rw [if_pos harg, if_pos harg, vista, List.getElem?_map]
    rfl
  · rw [if_neg harg, if_neg harg, porNombre, vista, List.find?_map]
    simp only [Function.comp_def]
    cases contexto.vars.find? fun v => v.id == identificador with
    | none => rfl
    | some v => rfl

/-- What has the name of a variable is one. -/
theorem find_locales (definidas : List Definicion) (identificador : Int)
    (harg : ¬ esArgumento identificador = true) :
    definidas.find? (fun definicion => definicion.identificador == identificador) =
      (locales definidas).find? fun definicion =>
        definicion.identificador == identificador := by
  rw [locales, List.find?_filter]
  congr 1
  funext definicion
  rw [Bool.eq_iff_iff, decide_eq_true_eq, beq_iff_eq]
  constructor
  · intro heq
    rw [heq, Bool.eq_false_iff.mpr harg]
    exact ⟨rfl, rfl⟩
  · exact And.right

/-- What should be found depends on the same. -/
theorem buscada_vista (config : Config) (definiciones : List (List Definicion))
    (identificador : Int) (definidas : List Definicion)
    (hlast : definiciones.getLast?.getD [] = definidas) :
    buscada config definiciones identificador =
      (if esArgumento identificador then
        (vistaDefinida definidas).1[(identificador - 48).toNat]?
      else porNombre (vistaDefinida definidas).2 identificador).getD (config.puntero 1) := by
  simp only [buscada, hlast]
  by_cases harg : esArgumento identificador = true
  · rw [if_pos harg, if_pos harg, vistaDefinida, List.getElem?_map]
    cases (argumentos definidas)[(identificador - 48).toNat]? with
    | none => rfl
    | some definicion => rfl
  · rw [if_neg harg, if_neg harg, find_locales definidas identificador harg, porNombre,
      vistaDefinida, List.find?_map]
    simp only [Function.comp_def]
    cases (locales definidas).find? fun definicion =>
        definicion.identificador == identificador with
    | none => rfl
    | some definicion => rfl

/-! ### The records -/

/-- A new definition is what a search can find more. -/
theorem vistaDefinida_append (definidas : List Definicion) (definicion : Definicion) :
    vistaDefinida (definidas ++ [definicion]) =
      if esArgumento definicion.identificador then
        ((vistaDefinida definidas).1 ++ [definicion.posicion], (vistaDefinida definidas).2)
      else ((vistaDefinida definidas).1,
        (vistaDefinida definidas).2 ++ [(definicion.identificador, definicion.posicion)]) := by
  by_cases harg : esArgumento definicion.identificador = true
  · rw [if_pos harg]
    simp only [vistaDefinida, argumentos, locales, List.filter_append, List.filter_singleton, harg,
      Bool.not_true, List.map_append, cond_true, cond_false, List.append_nil, List.map_singleton]
  · rw [if_neg harg]
    rw [Bool.not_eq_true] at harg
    simp only [vistaDefinida, argumentos, locales, List.filter_append, List.filter_singleton, harg,
      Bool.not_false, List.map_append, cond_true, cond_false, List.append_nil, List.map_singleton]

/-- What a function of the last context leaves to be found. -/
theorem enContexto_vista (config : Config) (stack : List Stack) (f : Stack → Stack) :
    (enContexto stack f).map (vista config) = (stack.map (vista config)).dropLast
      ++ [vista config (f (stack.getLast?.getD tStackCreate))] := by
  rw [enContexto, ← List.map_dropLast]
  cases hlast : stack.getLast? with
  | none =>
      rw [List.getLast?_eq_none_iff.mp hlast]
      rfl
  | some contexto => rw [List.map_append, List.map_singleton, Option.getD_some]

/-- A variable for which there is room can be found where `definirVariable` says. -/
theorem definirVariable_vista (config : Config) (r : Residue) (s : State) (identificador : Int)
    (definiciones : List (List Definicion)) (hcabe : s.cabe config = true)
    (hfiel : definiciones.map vistaDefinida = s.pcbActual.stack.map (vista config)) :
    (enUltimo definiciones { identificador := identificador
                             posicion := (definirVariable config r s identificador).2 }).map
        vistaDefinida =
      (definirVariable config r s identificador).1.pcbActual.stack.map (vista config) := by
  have hroom : ¬ s.pcbActual.stackPointer + 4 > config.stackSize * config.tamanioPagina := by
    rw [State.cabe, decide_eq_true_eq] at hcabe
    omega
  have hlast : vistaDefinida (definiciones.getLast?.getD []) =
      vista config (s.pcbActual.stack.getLast?.getD tStackCreate) := by
    have hmaps := congrArg List.getLast? hfiel
    rw [List.getLast?_map, List.getLast?_map] at hmaps
    cases hdefs : definiciones.getLast? with
    | none =>
        rw [hdefs] at hmaps
        rw [Option.map_eq_none_iff.mp hmaps.symm]
        rfl
    | some definidas =>
        rw [hdefs] at hmaps
        rcases Option.map_eq_some_iff.mp hmaps.symm with ⟨contexto, hcontexto, hsame⟩
        rw [hcontexto]
        exact hsame.symm
  have hfields := Prod.ext_iff.mp hlast
  simp only [definirVariable, if_neg hroom, enContexto_vista, enUltimo, List.map_append,
    List.map_singleton, List.map_dropLast, hfiel, vistaDefinida_append]
  congr 2
  by_cases harg : esArgumento identificador = true
  · rw [if_pos harg, if_pos harg, hfields.1, hfields.2]
    simp only [vista, List.map_append, List.map_singleton, posicion_nueva]
  · rw [if_neg harg, if_neg harg, hfields.1, hfields.2]
    simp only [vista, List.map_append, List.map_singleton, posicion_nueva]

/-- Nothing can be found in the context of a call. -/
theorem vista_llamada (config : Config) (contexto : Stack) (h : vivas contexto = 0) :
    vista config contexto = vistaDefinida [] := by
  rw [vivas, Nat.add_eq_zero_iff] at h
  rw [vista, List.eq_nil_of_length_eq_zero h.1, List.eq_nil_of_length_eq_zero h.2]
  rfl

/-- The records after a call that defines nothing. -/
theorem anota_linea (config : Config) (r : Residue) (s : State)
    (definiciones : List (List Definicion)) (i : Int) (linea : Linea)
    (hcontrol : s.control = .linea i linea) (hdefines : linea.defines = false) :
    s.anota config r definiciones =
      if linea.callsFunction then definiciones ++ [[]]
      else if linea.ends then definiciones.dropLast
      else definiciones := by
  rw [State.anota, hcontrol]
  cases linea with
  | definirVariable _ _ => exact Bool.noConfusion hdefines
  | _ => rfl

/-- A definition is recorded if there is room for it. -/
theorem anota_vista (config : Config) (r : Residue) (s : State) (i identificador : Int)
    (sigue : Int → Linea) (definiciones : List (List Definicion))
    (hcontrol : s.control = .linea i (.definirVariable identificador sigue))
    (hfiel : definiciones.map vistaDefinida = s.pcbActual.stack.map (vista config)) :
    (s.anota config r definiciones).map vistaDefinida =
      (definirVariable config r s identificador).1.pcbActual.stack.map (vista config) := by
  simp only [State.anota, hcontrol]
  by_cases hcabe : s.cabe config = true
  · rw [if_pos hcabe]
    exact definirVariable_vista config r s identificador definiciones hcabe hfiel
  · rw [if_neg hcabe]
    rw [State.cabe, decide_eq_true_eq] at hcabe
    rw [definirVariable_over config r s identificador (by omega)]
    exact hfiel

/-- A step inside a line keeps the contexts as they are recorded. -/
theorem stepLinea_vista (config : Config) (r : Residue) (s : State) (mem : Memoria.ServerState)
    (inbox : List Packet) (i : Int) (linea : Linea) (res : Result)
    (definiciones : List (List Definicion)) (hcontrol : s.control = .linea i linea)
    (hfiel : definiciones.map vistaDefinida = s.pcbActual.stack.map (vista config))
    (h : stepLinea config r s mem inbox i linea = some res) :
    (s.anota config r definiciones).map vistaDefinida =
      res.state.pcbActual.stack.map (vista config) := by
  by_cases hdefines : linea.defines = true
  · cases linea with
    | definirVariable identificador sigue =>
        obtain rfl := Option.some.inj h
        exact anota_vista config r s i identificador sigue definiciones hcontrol hfiel
    | _ => exact Bool.noConfusion hdefines
  rw [Bool.not_eq_true] at hdefines
  rw [anota_linea config r s definiciones i linea hcontrol hdefines]
  by_cases hcalls : linea.callsFunction = true
  · rcases stepLinea_calls config r s mem inbox i linea res hcalls hcontrol h with
      ⟨_, _, contexto, _, _, _, _, hstack, _, _, hvivas⟩
    rw [if_pos hcalls, hstack, List.map_append, List.map_append, hfiel, List.map_singleton,
      List.map_singleton, vista_llamada config contexto hvivas]
  rw [if_neg hcalls]
  by_cases hends : linea.ends = true
  · rcases stepLinea_ends config r s mem inbox i linea res hends h with ⟨conn, s', hfin, hpcb, _⟩
    rw [if_pos hends, List.map_dropLast, hfiel, hpcb]
    rcases finalizar_stack r { s with conn := conn } s' res.sent hfin with
      ⟨hnil, hnil', _⟩ | ⟨contexto, hstack, _⟩
    · rw [hnil', show s.pcbActual.stack = [] from hnil]
      rfl
    · rw [show s.pcbActual.stack = s'.pcbActual.stack ++ [contexto] from hstack, List.map_append,
        List.map_singleton, List.dropLast_concat]
  · rw [Bool.not_eq_true] at hcalls hends
    rw [if_neg (Bool.eq_false_iff.mp hends), hfiel,
      (stepLinea_quiet config r s mem inbox i linea res hcalls hends hdefines h).1]

/-- A step of a process is one of the CPU it is on. -/
theorem seguimiento_paso (config : Config) (p p' : Seguimiento) (r : Residue)
    (mem : Memoria.ServerState) (inbox : List Packet)
    (h : p.step config (.paso r mem inbox) = some p') :
    p.cpu.enEspera = false ∧ ∃ res, Cpu.step config r p.cpu mem inbox = some res ∧
      p' = { cpu := res.state, definiciones := p.cpu.anota config r p.definiciones } := by
  rw [Seguimiento.step] at h
  by_cases hespera : p.cpu.enEspera = true
  · rw [if_pos hespera] at h
    exact absurd h.symm (Option.some_ne_none _)
  · rw [if_neg hespera, Option.map_eq_some_iff] at h
    rcases h with ⟨res, hres, rfl⟩
    exact ⟨Bool.eq_false_iff.mpr hespera, res, hres, rfl⟩

/-- Every step keeps the contexts as they are recorded. -/
theorem fiel_step (config : Config) (p p' : Seguimiento) (suceso : Suceso) (hfiel : p.Fiel config)
    (hconserva : Conserva p suceso) (h : p.step config suceso = some p') : p'.Fiel config := by
  unfold Seguimiento.Fiel at hfiel ⊢
  cases suceso with
  | paso r mem inbox =>
      rcases seguimiento_paso config p p' r mem inbox h with ⟨hespera, res, hres, rfl⟩
      cases hcontrol : p.cpu.control with
      | espera =>
          rw [State.enEspera, hcontrol] at hespera
          exact Bool.noConfusion hespera
      | bucle i =>
          -- Between two lines the stack is left alone.
          have hanota : p.cpu.anota config r p.definiciones = p.definiciones := by
            rw [State.anota, hcontrol]
          simp only [hanota]
          rcases (step_bucle_cases config r p.cpu mem inbox res i hcontrol hres).2 with
            ⟨_, _, conn, linea, hstate⟩ | ⟨_, _, hstate, _⟩
          · rw [hstate]
            exact hfiel
          · rw [hstate]
            exact hfiel
      | compartida i sigue =>
          have hanota : p.cpu.anota config r p.definiciones = p.definiciones := by
            rw [State.anota, hcontrol]
          simp only [hanota]
          rcases step_compartida_cases config r p.cpu mem inbox res i sigue hcontrol hres with
            ⟨packet, rest, _, rfl⟩
          exact hfiel
      | linea i linea =>
          rw [step_linea config r p.cpu mem inbox i linea hcontrol] at hres
          exact stepLinea_vista config r p.cpu mem inbox i linea res p.definiciones hcontrol hfiel
            hres
  | reanudar cpu =>
      rw [Seguimiento.step] at h
      by_cases hespera : p.cpu.enEspera = true
      · rw [if_pos hespera, Option.some.injEq] at h
        subst h
        rw [show cpu.pcbActual.stack = p.cpu.pcbActual.stack from hconserva]
        exact hfiel
      · rw [if_neg hespera] at h
        exact absurd h.symm (Option.some_ne_none _)

/-- A process that comes to a CPU in a message of the kernel begins the burst with its stack, as
    long as its control block is one that the messages can carry. -/
theorem conserva_mensaje (p : Seguimiento) (cpu : State) (r : Residue) (k : Kernel.Residue)
    (packet : Packet) (pcb : Pcb) (hsend : Kernel.sendPcb k pcb = some packet)
    (hpcb : Serial.Migratable pcb) (hstack : pcb.stack = p.cpu.pcbActual.stack) :
    Conserva p (.reanudar (recibirMensajesDeKernel r cpu packet)) := by
  rcases sendPcb_carries k pcb packet hsend with ⟨hop, hcarries⟩
  have hfit : (Serial.encPcb pcb).length < 2 ^ 31 := by
    have hlength := Serial.encPcb_length pcb
    rw [Kernel.sendPcb] at hsend
    split at hsend
    · exact absurd hsend.symm (Option.some_ne_none _)
    · rename_i hroom
      rw [bufferCapacity] at hroom
      omega
  have hreads := pointer_reads packet r.reply
  rw [show packet.payload = Serial.encPcb pcb from hcarries] at hreads
  have hsame := Serial.serialUnpackPcb_of_reads _ pcb hpcb hfit hreads
  rw [Conserva, recibirMensajesDeKernel, hop]
  simp only [ejecutarPrograma, hsame, hstack]

/-! ### Exactness -/

/-- Behind a test that lets one index too many through, an entry of a list is what it should be,
    and `nada` where there is none, exactly if the index is not that one. -/
theorem getElem?_limite (xs : List Int) (i nada : Int) (hlo : 0 ≤ i) :
    (if i > xs.length then some nada else xs[i.toNat]?) = some (xs[i.toNat]?.getD nada)
      ↔ ¬ i = xs.length := by
  by_cases hbeyond : i > xs.length
  · -- The test sees an index that is too large.
    rw [if_pos hbeyond, List.getElem?_eq_none (by omega)]
    exact iff_of_true rfl (by omega)
  · rw [if_neg hbeyond]
    by_cases hlimit : i = xs.length
    · rw [List.getElem?_eq_none (by omega)]
      exact iff_of_false (fun h => Option.some_ne_none _ h.symm) (not_not_intro hlimit)
    · have hlt : i.toNat < xs.length := by omega
      rw [List.getElem?_eq_getElem hlt]
      exact iff_of_true rfl hlimit

/-- A search in contexts that are as they are recorded. -/
theorem obtenerPosicionVariable_iff (config : Config) (p : Seguimiento) (identificador : Int)
    (hfiel : p.Fiel config) :
    obtenerPosicionVariable config p.cpu identificador =
        some (buscada config p.definiciones identificador)
      ↔ ¬ PasaElLimite p.cpu identificador := by
  have hmaps := congrArg List.getLast? hfiel
  rw [List.getLast?_map, List.getLast?_map] at hmaps
  cases hlast : p.cpu.pcbActual.stack.getLast? with
  | none =>
      rw [hlast, Option.map_none, Option.map_eq_none_iff] at hmaps
      -- Without contexts nothing has been defined.
      have hbuscada := buscada_vista config p.definiciones identificador [] (by rw [hmaps]; rfl)
      have hnada : buscada config p.definiciones identificador = config.puntero 1 := by
        rw [hbuscada]
        by_cases harg : esArgumento identificador = true
        · rw [if_pos harg]
          rfl
        · rw [if_neg harg]
          rfl
      refine iff_of_true ?_ ?_
      · rw [hnada, obtenerPosicionVariable]
        simp only [hlast]
      · rintro ⟨_, contexto, hcontexto, _⟩
        exact absurd (hlast.symm.trans hcontexto).symm (Option.some_ne_none _)
  | some contexto =>
      rw [hlast, Option.map_some] at hmaps
      rcases Option.map_eq_some_iff.mp hmaps with ⟨definidas, hdefs, hvista⟩
      rw [obtenerPosicionVariable_vista config p.cpu identificador contexto hlast,
        buscada_vista config p.definiciones identificador definidas (by rw [hdefs]; rfl), hvista]
      have hlimite : PasaElLimite p.cpu identificador ↔
          esArgumento identificador = true ∧ identificador - 48 = contexto.args.length := by
        unfold PasaElLimite
        rw [hlast]
        simp only [Option.some.injEq, exists_eq_left']
      rw [hlimite]
      have hlength : (vista config contexto).1.length = contexto.args.length :=
        List.length_map _
      by_cases harg : esArgumento identificador = true
      · have hdigit : 0 ≤ identificador - 48 := by
          rw [esArgumento, Bool.and_eq_true, decide_eq_true_eq, decide_eq_true_eq] at harg
          omega
        simp only [harg, if_true, true_and, ← hlength]
        exact getElem?_limite _ _ _ hdigit
      · simp only [harg, Bool.false_eq_true, if_false, false_and, not_false_eq_true]

/-- In a run of a process from its fresh control block, whose bursts begin with the stack it had,
    a search finds what has been defined in the last context, and `EXIT_FAILURE` if that has not
    been, exactly if it is not for the number behind the last argument. -/
theorem lookup_exact_iff (config : Config) (p₀ p : Seguimiento) (sucesos : List Suceso)
    (identificador : Int) (hstack : p₀.cpu.pcbActual.stack = []) (hdefs : p₀.definiciones = [])
    (hconserva : Along (Seguimiento.step config) Conserva p₀ sucesos)
    (hrun : run (Seguimiento.step config) p₀ sucesos = some p) :
    obtenerPosicionVariable config p.cpu identificador =
        some (buscada config p.definiciones identificador)
      ↔ ¬ PasaElLimite p.cpu identificador := by
  refine obtenerPosicionVariable_iff config p identificador ?_
  refine run_invariant_along (Seguimiento.step config) Conserva (Seguimiento.Fiel config)
    (fun p suceso u hfiel hok hstep => fiel_step config p u suceso hfiel hok hstep) p₀ p sucesos ?_
    hconserva hrun
  rw [Seguimiento.Fiel, hstack, hdefs]
  rfl

set_option maxRecDepth 4000

/-- The process whose first line defines `a`, with nothing defined yet. -/
def lookupStart : Seguimiento := { cpu := (mainStart 0).cpu, definiciones := [] }

/-- `a` is found where it was defined. -/
theorem lookup_exact_first : ∃ p,
    run (Seguimiento.step mainConfig) lookupStart
      (List.replicate 2 (.paso callResidue mainServer [])) = some p ∧
    obtenerPosicionVariable mainConfig p.cpu 97 = some (buscada mainConfig p.definiciones 97) :=
  ⟨_, rfl, (lookup_exact_iff mainConfig lookupStart _
    (List.replicate 2 (.paso callResidue mainServer [])) 97 rfl rfl
    ⟨trivial, fun _ _ => ⟨trivial, fun _ _ => trivial⟩⟩ rfl).mpr fun h =>
      absurd h.1 (by decide)⟩

/-- In the same context the argument `0` is looked for behind the end of an empty list. -/
theorem argument_behind_last : ∃ p,
    run (Seguimiento.step mainConfig) lookupStart
      (List.replicate 2 (.paso callResidue mainServer [])) = some p ∧
    obtenerPosicionVariable mainConfig p.cpu 48 = none ∧
    buscada mainConfig p.definiciones 48 = mainConfig.puntero 1 :=
  ⟨_, rfl, rfl, rfl⟩

end Cpu

end Esther
