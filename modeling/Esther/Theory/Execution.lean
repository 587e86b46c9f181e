import Esther.Theory.Ansisop
import Esther.Theory.Cpu

/-!
# Executing a Program

A CPU does what the program says. The relation between the two machines is the layout: the
cells of a scope are the variables and arguments of a context, cell `n` is at position `4 * n`
of the stack, and what it holds is in the four bytes to which the page table of the server
leads. It holds of a program that has just been loaded, and every step keeps it.

A step of the CPU may be one of its language (a declaration, an assignment, a call) or the
request for the next line, which comes out of the same memory. The code is therefore part of
the relation: an assignment changes four bytes in a page of the stack, and no page of the stack
has the frame of a page of code. Other clients store in their own pages.

What the language does not know has to be asked for: instructions that do not straddle two
pages, names and control blocks that fit the buffers into which they are packed, and a zero
after the reply for `strcpy` to stop at. Numbers of more than sixteen bits, undeclared names
and addresses of nothing have no meaning in the language, so that nothing is said of them.

## Main definitions

* `Traza`, `Trazada`: The contexts of a control block hold the cells of the scopes.
* `Instalado`, `Cargado`: A program in a control block, and in the memory.
* `Representa`: The machine is in the state of the program.
* `Holgado`, `Permitido`: The steps for which there is room, among well-behaved clients.
* `Concuerda`: What can be seen of a program on the machine.

## Theorems

* `Representa.define`, `Representa.busca`, `Representa.lee`, `Representa.escribe`: Variables.
* `Representa.llama`, `Representa.finaliza`, `Representa.retorna`: Functions.
* `Representa.trae`: The next line.
* `Representa.atiende`: Other clients.
* `Representa.paso`, `representa_run`, `ansisop_refines`: Steps and runs.
-/

namespace Esther

/-- The name a call of the kernel is about. -/
def Linea.nombra : Linea → Option (List UInt8)
  | .obtenerValorCompartida nombre _ => some nombre
  | .asignarValorCompartida nombre _ _ => some nombre
  | .signal identificador _ => some identificador
  | .wait identificador _ => some identificador
  | _ => none

namespace Cpu

open Cells Memoria Scopes Serial Transition

/-! ### Layout -/

/-- The control block has the variables of a scope at the addresses of its cells, and knows
    where the function goes back to and where its result is to go. -/
structure Traza (config : Config) (base : Nat) (contexto : Stack)
    (scope : Scope (Option Int) Int) : Prop where
  argumentos : contexto.args.map (posicion config)
    = (cells (fun x => x == none) base scope.names).map direccion
  locales : ∀ id : Int, (contexto.vars.filter fun v => v.id == id).map (posicion config)
    = (cells (fun x => x == some id) base scope.names).map direccion
  cuenta : vivas contexto = scope.names.length
  vuelta : contexto.retPos = scope.back
  resultado : contexto.retVar.page * config.tamanioPagina + contexto.retVar.offset
    = direccion scope.result

/-- The same for all contexts, from a cell on. -/
def Trazada (config : Config) : Nat → List Stack → List (Scope (Option Int) Int) → Prop
  | _, [], [] => True
  | base, contexto :: stack, scope :: scopes =>
      Traza config base contexto scope ∧ Trazada config (base + scope.names.length) stack scopes
  | _, _, _ => False

theorem trazada_append (config : Config) (base : Nat) (stack : List Stack) (contexto : Stack)
    (scopes : List (Scope (Option Int) Int)) (scope : Scope (Option Int) Int) :
    Trazada config base (stack ++ [contexto]) (scopes ++ [scope]) ↔
      Trazada config base stack scopes ∧ Traza config (base + size scopes) contexto scope := by
  induction stack generalizing base scopes with
  | nil =>
      cases scopes with
      | nil => simp only [List.nil_append, Trazada, and_true, size_nil, Nat.add_zero, true_and]
      | cons first scopes =>
          cases scopes with
          | nil => simp only [List.nil_append, List.cons_append, Trazada, and_false, false_and]
          | cons second scopes =>
              simp only [List.nil_append, List.cons_append, Trazada, and_false, false_and]
  | cons head stack ih =>
      cases scopes with
      | nil =>
          cases stack with
          | nil => simp only [List.nil_append, List.cons_append, Trazada, and_false, false_and]
          | cons second stack =>
              simp only [List.nil_append, List.cons_append, Trazada, and_false, false_and]
      | cons first scopes =>
          rw [List.cons_append, List.cons_append, Trazada, Trazada, ih, and_assoc, size,
            Nat.add_assoc]

/-- There are as many contexts as scopes, and the last of them belong together. -/
theorem trazada_last (config : Config) (base : Nat) (stack : List Stack)
    (scopes : List (Scope (Option Int) Int)) (h : Trazada config base stack scopes) :
    (stack = [] ∧ scopes = []) ∨ ∃ below contexto outer scope, stack = below ++ [contexto] ∧
      scopes = outer ++ [scope] ∧ Trazada config base below outer ∧
      Traza config (base + size outer) contexto scope := by
  rcases List.eq_nil_or_concat' stack with rfl | ⟨below, contexto, rfl⟩
  · cases scopes with
    | nil => exact .inl ⟨rfl, rfl⟩
    | cons scope scopes => exact absurd h (by simp only [Trazada, not_false_eq_true])
  · rcases List.eq_nil_or_concat' scopes with rfl | ⟨outer, scope, rfl⟩
    · cases below with
      | nil => exact absurd h (by simp only [List.nil_append, Trazada, not_false_eq_true])
      | cons head below =>
          exact absurd h (by simp only [List.cons_append, Trazada, not_false_eq_true])
    · rcases (trazada_append config base below contexto outer scope).mp h with ⟨hbelow, hlast⟩
      exact .inr ⟨below, contexto, outer, scope, rfl, rfl, hbelow, hlast⟩

theorem trazada_vivas (config : Config) (base : Nat) (stack : List Stack)
    (scopes : List (Scope (Option Int) Int)) (h : Trazada config base stack scopes) :
    (stack.map vivas).sum = size scopes := by
  induction stack generalizing base scopes with
  | nil =>
      cases scopes with
      | nil => rfl
      | cons scope scopes => exact absurd h (by simp only [Trazada, not_false_eq_true])
  | cons contexto stack ih =>
      cases scopes with
      | nil => exact absurd h (by simp only [Trazada, not_false_eq_true])
      | cons scope scopes =>
          rw [List.map_cons, List.sum_cons, ih _ scopes h.2, h.1.cuenta, size]

theorem celdaDe_eq_some (p : Int) (cell : Nat) : celdaDe p = some cell ↔ p = direccion cell := by
  unfold celdaDe direccion tamanioVariable
  split
  · rw [Option.some.injEq]
    omega
  · simp only [reduceCtorEq, false_iff]
    omega

theorem celdaDe_direccion (cell : Nat) : celdaDe (direccion cell) = some cell :=
  (celdaDe_eq_some _ cell).mpr rfl

/-- Every cell is the position of a variable. -/
theorem mem_posiciones (config : Config) (pcb : Pcb) (pila : Pila) (cell : Nat)
    (hapilada : Apilada config pcb) (htrazada : Trazada config 0 pcb.stack pila.scopes)
    (hcell : cell < pila.values.length) : direccion cell ∈ posiciones config pcb := by
  refine (Frames.stacked_flatten _ _ _ _ hapilada).1.mem_iff.mpr ?_
  have hlength : ((pcb.stack.map (marco config)).flatten).length = pila.values.length := by
    rw [pila.sized, ← trazada_vivas config 0 _ _ htrazada]
    exact posiciones_length config pcb
  rw [Frames.block, List.mem_map]
  refine ⟨cell, List.mem_range.mpr (by omega), ?_⟩
  rw [direccion, Int.zero_add]

/-! ### The relation -/

/-- The process with the values of the program's variables. -/
def Maquina.proceso (s : Maquina) (pila : Pila) : Proceso :=
  { cpu := s.cpu, memoria := s.memoria, valores := fun p => (celdaDe p).bind pila.read }

/-- The control block has the program, every instruction of which is in one page and fits a
    reply. An address of the stack is a `t_puntero`. -/
structure Instalado (config : Config) (codigo : List UInt8) (programa : Programa) (pcb : Pcb) :
    Prop where
  programa : Programa.de config pcb codigo = programa
  instrucciones : ∀ instruccion ∈ pcb.indexCode, 0 ≤ instruccion.start ∧ 0 < instruccion.offset ∧
    instruccion.offset ≤ bufferCapacity ∧ instruccion.start + instruccion.offset ≤ codigo.length ∧
    (instruccion.start + instruccion.offset - 1) / config.tamanioPagina
      = instruccion.start / config.tamanioPagina
  paginas : (codigo.length : Int) ≤ pcb.pagesCode * config.tamanioPagina
  puntero : ∀ p, 0 ≤ p → p < config.stackSize * config.tamanioPagina → config.puntero p = p

/-- The machine is in the state of the program. -/
structure Representa (config : Config) (codigo : List UInt8) (programa : Programa) (s : Maquina)
    (a : Ambiente) : Prop where
  guarda : Guarda config (s.proceso a.pila)
  trazada : Trazada config 0 s.cpu.pcbActual.stack a.pila.scopes
  instalado : Instalado config codigo programa s.cpu.pcbActual
  guardado : Stored s.memoria (usuario s.cpu.pcbActual) codigo
  cortos : ∀ cell valor, a.pila.read cell = some valor → Short valor
  contador : s.cpu.pcbActual.PC = a.pc
  sinLugar : s.cpu.huboStackOver = a.sinLugar
  terminado : s.cpu.finPrograma = a.terminado
  control : s.cpu.control = a.control
  dichos : s.dichos = a.dichos.map Dicho.cuerpo

/-- Of the CPU it is the control block that counts. -/
theorem Guarda.congr {config : Config} {t u : Proceso} (h : Guarda config t)
    (hpcb : u.cpu.pcbActual = t.cpu.pcbActual) (hmemoria : u.memoria = t.memoria)
    (hvalores : u.valores = t.valores) : Guarda config u := by
  rcases h with ⟨hadmitido, hapilada, hlimite, hguardados⟩
  rw [← hpcb] at hadmitido hapilada hlimite hguardados
  rw [← hmemoria] at hadmitido hguardados
  rw [← hvalores] at hguardados
  exact ⟨hadmitido, hapilada, hlimite, hguardados⟩

section Relation

variable {config : Config} {codigo : List UInt8} {programa : Programa} {s : Maquina}
  {a : Ambiente}

theorem Representa.vivas (h : Representa config codigo programa s a) :
    totalVivas s.cpu.pcbActual = a.pila.values.length := by
  rw [totalVivas, trazada_vivas config 0 _ _ h.trazada, a.pila.sized]

theorem Representa.stackPointer (h : Representa config codigo programa s a) :
    s.cpu.pcbActual.stackPointer = direccion a.pila.values.length := by
  have hpointer := apilada_pointer config s.cpu.pcbActual h.guarda.apilada
  rw [h.vivas] at hpointer
  exact hpointer

/-- The addresses of the cells are below the end of the stack. -/
theorem Representa.puntero (h : Representa config codigo programa s a) (cell : Nat)
    (hcell : cell < a.pila.values.length) : config.puntero (direccion cell) = direccion cell := by
  have hpointer := h.stackPointer
  have hlimite := h.guarda.limite
  have hsame : (s.proceso a.pila).cpu = s.cpu := rfl
  rw [hsame] at hlimite
  refine h.instalado.puntero _ ?_ ?_
  · simp only [direccion, tamanioVariable]
    omega
  · simp only [direccion, tamanioVariable] at hpointer ⊢
    omega

/-- Where the machine stands in the line is its own business. -/
theorem Representa.at (h : Representa config codigo programa s a) (control : Control) :
    Representa config codigo programa { s with cpu := { s.cpu with control := control } }
      { a with control := control } :=
  ⟨h.guarda.congr rfl rfl rfl, h.trazada, h.instalado,
    h.guardado, h.cortos, h.contador, h.sinLugar, h.terminado, rfl, h.dichos⟩

/-- A control block with another stack and another program counter, and the scopes that belong
    to it. -/
theorem Representa.withStack (h : Representa config codigo programa s a) (pcb : Pcb)
    (pila : Pila) (pc : Int)
    (hpcb : pcb = { s.cpu.pcbActual with
      PC := pc, stack := pcb.stack, stackPointer := pcb.stackPointer })
    (hmovimiento : Movimiento config s.cpu.pcbActual pcb)
    (htrazada : Trazada config 0 pcb.stack pila.scopes)
    (hread : ∀ cell valor, pila.read cell = some valor → a.pila.read cell = some valor) :
    Representa config codigo programa { s with cpu := { s.cpu with pcbActual := pcb } }
      { a with pila := pila, pc := pc } := by
  have hguarda := h.guarda
  have hadm := hguarda.admitido
  have hapilada : Apilada config pcb := apilada_step config _ _ hmovimiento hguarda.apilada
  have hpages : pcb.pagesCode = s.cpu.pcbActual.pagesCode := by rw [hpcb]
  have husuario : usuario pcb = usuario s.cpu.pcbActual := by rw [hpcb]; rfl
  have hcelda : ∀ p, celda config pcb s.memoria p = celda config s.cpu.pcbActual s.memoria p := by
    intro p
    rw [hpcb]
    rfl
  refine ⟨⟨⟨hadm.multiplo, hadm.positivo, hadm.corto, hadm.marco, ?_, hadm.pila, ?_, ?_,
    hadm.tabla, ?_⟩, hapilada, stackPointer_step config _ _ hmovimiento hguarda.limite,
    fun p valor hvalor => ?_⟩, htrazada, ⟨?_, ?_, ?_, h.instalado.puntero⟩, ?_,
    fun cell valor hvalor => h.cortos cell valor (hread cell valor hvalor), ?_, h.sinLugar,
    h.terminado, h.control, h.dichos⟩
  · exact hpages ▸ hadm.codigo
  · exact hpages ▸ hadm.paginas
  · exact husuario ▸ hadm.conocido
  · change ∀ page, 0 ≤ page → page < pcb.pagesCode + config.stackSize →
      page ∈ pagesOf s.memoria.pageTable (usuario pcb)
    rw [hpages, husuario]
    exact hadm.propias
  · -- A value that is left is where it was, and its cell is still one of the stack.
    rcases Option.bind_eq_some_iff.mp hvalor with ⟨cell, hcell, hvalue⟩
    rcases hguarda.valores p valor (Option.bind_eq_some_iff.mpr
      ⟨cell, hcell, hread cell valor hvalue⟩) with ⟨_, hmain⟩
    refine ⟨?_, (congrArg _ (hcelda p)).trans hmain⟩
    rw [(celdaDe_eq_some p cell).mp hcell]
    exact mem_posiciones config pcb pila cell hapilada htrazada (pila.read_lt cell valor hvalue)
  · rw [← h.instalado.programa, hpcb]
    rfl
  · have hindex : pcb.indexCode = s.cpu.pcbActual.indexCode := by rw [hpcb]
    change ∀ instruccion ∈ pcb.indexCode, _
    rw [hindex]
    exact h.instalado.instrucciones
  · exact hpages ▸ h.instalado.paginas
  · exact husuario ▸ h.guardado
  · change pcb.PC = pc
    rw [hpcb]

theorem Representa.salta (h : Representa config codigo programa s a) (etiqueta : List UInt8) :
    Representa config codigo programa
      { s with cpu := { s.cpu with pcbActual := irAlLabel config s.cpu.pcbActual etiqueta } }
      (a.salta programa etiqueta) := by
  have hsalto : programa.salto etiqueta
      = if busquedaEtiqueta config s.cpu.pcbActual etiqueta = config.puntero (-1) then none
        else some (toInt (busquedaEtiqueta config s.cpu.pcbActual etiqueta - 1)) := by
    rw [← h.instalado.programa]
    rfl
  unfold irAlLabel Ambiente.salta
  simp only
  by_cases hnone : busquedaEtiqueta config s.cpu.pcbActual etiqueta = config.puntero (-1)
  · rw [hsalto, if_pos hnone, if_pos hnone]
    exact h
  · rw [hsalto, if_neg hnone, if_neg hnone]
    exact h.withStack _ a.pila _ rfl (.ninguno rfl rfl) h.trazada fun _ _ hread => hread

/-- A function is called. -/
theorem Representa.llama (h : Representa config codigo programa s a) (contexto : Stack)
    (etiqueta : List UInt8) (result : Nat) (hargs : contexto.args = [])
    (hvars : contexto.vars = []) (hpos : contexto.retPos = s.cpu.pcbActual.PC)
    (hresult : contexto.retVar.page * config.tamanioPagina + contexto.retVar.offset
      = direccion result) :
    Representa config codigo programa
      { s with cpu := { s.cpu with
        pcbActual := irAlLabel config
          { s.cpu.pcbActual with stack := s.cpu.pcbActual.stack ++ [contexto] } etiqueta } }
      (Ambiente.salta programa { a with pila := a.pila.enter a.pc result } etiqueta) := by
  have hcalled : Representa config codigo programa
      { s with cpu := { s.cpu with
        pcbActual := { s.cpu.pcbActual with stack := s.cpu.pcbActual.stack ++ [contexto] } } }
      { a with pila := a.pila.enter a.pc result } := by
    refine h.withStack _ (a.pila.enter a.pc result) a.pc ?_ (.llamada contexto ?_ rfl rfl) ?_
      fun _ _ hread => hread
    · rw [← h.contador]
    · rw [marco, hargs, hvars]
      rfl
    · refine (trazada_append config 0 _ contexto _ (Scope.empty a.pc result)).mpr
        ⟨h.trazada, ?_, fun id => ?_, ?_, hpos.trans h.contador, hresult⟩
      · rw [hargs]
        rfl
      · rw [hvars]
        rfl
      · rw [Cpu.vivas, hargs, hvars]
        rfl
  exact hcalled.salta etiqueta

/-- A variable that is added to a context and to its scope. -/
theorem traza_add (base : Nat) (contexto : Stack) (scope : Scope (Option Int) Int)
    (identificador : Int) (nueva : Var) (h : Traza config base contexto scope)
    (hid : esArgumento identificador = false → nueva.id = identificador)
    (hpos : posicion config nueva = direccion (base + scope.names.length)) :
    Traza config base
      (if esArgumento identificador then { contexto with args := contexto.args ++ [nueva] }
        else { contexto with vars := contexto.vars ++ [nueva] })
      (scope.add (nombre identificador)) := by
  by_cases harg : esArgumento identificador = true
  · -- An argument has no name, so the locals stay.
    rw [if_pos harg, nombre, if_pos harg]
    refine ⟨?_, fun id => ?_, ?_, h.vuelta, h.resultado⟩
    · simp only [Scope.add, cells_append, List.map_append, h.argumentos, List.map_singleton, hpos,
        beq_self_eq_true, if_true]
    · simp only [Scope.add, cells_append, h.locales id]
      simp
    · have hcuenta := h.cuenta
      simp only [Cpu.vivas, Scope.add, List.length_append, List.length_singleton] at hcuenta ⊢
      omega
  · have hname := hid (Bool.eq_false_iff.mpr harg)
    rw [if_neg harg, nombre, if_neg harg]
    refine ⟨?_, fun id => ?_, ?_, h.vuelta, h.resultado⟩
    · simp only [Scope.add, cells_append, h.argumentos]
      simp
    · simp only [Scope.add, cells_append, List.filter_append, List.map_append, h.locales id]
      by_cases hsame : identificador = id
      · simp [hname, hsame, hpos]
      · simp [hname, hsame]
    · have hcuenta := h.cuenta
      simp only [Cpu.vivas, Scope.add, List.length_append, List.length_singleton] at hcuenta ⊢
      omega

/-- The last context and the innermost scope belong together; without any, the ones that would
    be opened do. -/
theorem trazada_inner (pcb : Pcb) (pila : Pila) (h : Trazada config 0 pcb.stack pila.scopes) :
    ∃ below contexto, (∀ f, enContexto pcb.stack f = below ++ [f contexto]) ∧
      Trazada config 0 below pila.outer ∧
      Traza config (size pila.outer) contexto (pila.inner (-1)) := by
  unfold enContexto Machine.outer Machine.inner
  rcases trazada_last config 0 _ _ h with ⟨hstack, hscopes⟩ |
    ⟨below, contexto, outer, scope, hstack, hscopes, hbelow, hlast⟩
  · rw [hstack, hscopes]
    refine ⟨[], tStackCreate, fun _ => rfl, trivial, rfl, fun _ => rfl, rfl, rfl, ?_⟩
    simp only [tStackCreate, Int.zero_mul, Int.add_zero]
    rfl
  · rw [hstack, hscopes, List.getLast?_concat, List.dropLast_concat, List.getLast?_concat,
      List.dropLast_concat]
    rw [Nat.zero_add] at hlast
    exact ⟨below, contexto, fun _ => rfl, hbelow, hlast⟩

/-- A variable is declared, or there is no room for it. -/
theorem Representa.define (h : Representa config codigo programa s a) (r : Residue)
    (identificador i : Int) (sigue : Int → Linea) (b : Ambiente)
    (hb : a.pasoLinea programa i (.definirVariable identificador sigue) = some b) :
    Representa config codigo programa
      { s with cpu := { (definirVariable config r s.cpu identificador).1 with
        control := .linea i (sigue (definirVariable config r s.cpu identificador).2) } } b := by
  have hpointer := h.stackPointer
  have hcapacidad : programa.capacidad
      = config.stackSize * config.tamanioPagina / tamanioVariable := by
    rw [← h.instalado.programa]
    rfl
  have hroom : (a.pila.values.length : Int) < programa.capacidad ↔
      ¬ s.cpu.pcbActual.stackPointer + 4 > config.stackSize * config.tamanioPagina := by
    rw [hcapacidad, hpointer, direccion, tamanioVariable]
    omega
  rw [Ambiente.pasoLinea] at hb
  by_cases hover : s.cpu.pcbActual.stackPointer + 4 > config.stackSize * config.tamanioPagina
  · -- The stack is full, and both get the address that is none.
    rw [if_neg (mt hroom.mp (not_not.mpr hover)), Option.some.injEq] at hb
    have hnulo : programa.sinDireccion = config.puntero (-1) := by
      rw [← h.instalado.programa]
      rfl
    rw [← hb, hnulo]
    simp only [definirVariable, if_pos hover]
    exact ⟨h.guarda.congr rfl rfl rfl, h.trazada,
      h.instalado, h.guardado, h.cortos, h.contador, rfl, h.terminado, rfl, h.dichos⟩
  · rw [if_pos (hroom.mpr hover), Option.some.injEq] at hb
    have hmovimiento := definirVariable_movimiento config r s.cpu identificador
    rw [← hb]
    simp only [definirVariable, if_neg hover] at hmovimiento ⊢
    have hbounds : config.puntero s.cpu.pcbActual.stackPointer
        = direccion a.pila.values.length := by
      rw [hpointer]
      refine h.instalado.puntero _ ?_ ?_
      · simp only [direccion, tamanioVariable]
        omega
      · rw [← hpointer]
        omega
    rw [hbounds]
    -- The variable lies behind all others, where the program has its next cell.
    have hnueva : posicion config
        { id := if esArgumento identificador then r.id else identificador
          mempos :=
            { page := s.cpu.pcbActual.stackPointer.tdiv config.tamanioPagina
              offset := s.cpu.pcbActual.stackPointer.tmod config.tamanioPagina
              size := tamanioVariable } } = direccion a.pila.values.length :=
      (posicion_nueva config _ _).trans hpointer
    refine Representa.at (h.withStack _ (a.pila.declare (-1) (nombre identificador)) a.pc ?_
      hmovimiento ?_ fun cell valor hread => ?_) _
    · rw [← h.contador]
    · rcases trazada_inner s.cpu.pcbActual a.pila h.trazada with
        ⟨below, contexto, hcontexto, hbelow, hlast⟩
      rw [hcontexto]
      refine (trazada_append config 0 below _ a.pila.outer _).mpr ⟨hbelow, ?_⟩
      have hadd := traza_add _ contexto _ identificador _ hlast (fun harg => by simp [harg])
        (hnueva.trans (congrArg direccion (by rw [a.pila.sized, Machine.size_inner])))
      rw [Nat.zero_add]
      -- It goes to the arguments or to the variables of the last context.
      by_cases harg : esArgumento identificador = true
      · simpa only [if_pos harg] using hadd
      · simpa only [if_neg harg] using hadd
    · rwa [a.pila.read_declare] at hread

/-- A variable that has been declared is found where it is. -/
theorem Representa.busca (h : Representa config codigo programa s a) (identificador : Int)
    (cell : Nat) (hfind : a.pila.find (esDe identificador) (cual identificador) = some cell) :
    obtenerPosicionVariable config s.cpu identificador = some (direccion cell) := by
  have hpuntero := h.puntero cell (a.pila.find_lt _ _ _ hfind).2
  unfold Machine.find at hfind
  unfold obtenerPosicionVariable
  rcases trazada_last config 0 _ _ h.trazada with ⟨_, hscopes⟩ |
    ⟨below, contexto, outer, scope, hstack, hscopes, _, hlast⟩
  · rw [hscopes] at hfind
    exact absurd hfind.symm (Option.some_ne_none _)
  · rw [Machine.outer, hscopes, List.getLast?_concat, List.dropLast_concat] at hfind
    rw [Nat.zero_add] at hlast
    rw [hstack, List.getLast?_concat]
    -- What the control block has at that place is a variable with the address of the cell.
    have hfound : ∀ v : Var, posicion config v = direccion cell →
        config.puntero (v.mempos.page * config.tamanioPagina + v.mempos.offset)
          = direccion cell := by
      intro v hv
      rw [← hpuntero, ← hv]
      rfl
    by_cases harg : esArgumento identificador = true
    · have htest : esDe identificador = fun x => x == none := by
        funext x
        rw [esDe, nombre, if_pos harg]
      rw [htest, cual, if_pos harg] at hfind
      simp only [if_pos harg]
      have hnth := congrArg (fun l => l[(identificador - 48).toNat]?) hlast.argumentos
      simp only [List.getElem?_map, hfind, Option.map_some, Option.map_eq_some_iff] at hnth
      rcases hnth with ⟨v, hv, hpos⟩
      have hlength := (List.getElem?_eq_some_iff.mp hv).1
      rw [if_neg (by omega), hv]
      exact congrArg some (hfound v hpos)
    · have htest : esDe identificador = fun x => x == some identificador := by
        funext x
        rw [esDe, nombre, if_neg harg]
      rw [htest, cual, if_neg harg] at hfind
      simp only [if_neg harg]
      have hfirst := congrArg List.head? (hlast.locales identificador)
      simp only [← List.head?_eq_getElem?] at hfind
      rw [List.head?_map, List.head?_map, List.head?_filter, hfind, Option.map_some,
        Option.map_eq_some_iff] at hfirst
      rcases hfirst with ⟨v, hv, hpos⟩
      rw [hv]
      exact congrArg some (hfound v hpos)

/-- The value of a variable is read. -/
theorem Representa.lee (h : Representa config codigo programa s a) (r : Residue)
    (p valor : Int) (hlee : a.lee p = some valor) :
    ∃ conn, dereferenciar config r s.cpu s.memoria p
      = some ({ s.cpu with conn := conn }, s.memoria, valor) := by
  rcases h.guarda.valores p valor hlee with ⟨hmem, hmain⟩
  rcases Option.bind_eq_some_iff.mp hlee with ⟨cell, _, hread⟩
  rcases dereferenciar_value config r (s.proceso a.pila) p h.guarda hmem with ⟨conn, hvalue⟩
  rw [hmain, toShort_of_short valor (h.cortos cell valor hread)] at hvalue
  exact ⟨conn, hvalue⟩

/-- What is read over a new connection is the same. -/
theorem Representa.reconnect (h : Representa config codigo programa s a) (conn : Connection) :
    Representa config codigo programa { s with cpu := { s.cpu with conn := conn } } a :=
  ⟨h.guarda.congr rfl rfl rfl, h.trazada,
    h.instalado, h.guardado, h.cortos, h.contador, h.sinLugar, h.terminado, h.control, h.dichos⟩

/-- An assignment changes the four bytes of its variable and no others. -/
theorem asignar_frame (r : Residue) (t : Proceso) (p valor c : Int)
    (ht : Guarda config t) (hmem : p ∈ posiciones config t.cpu.pcbActual)
    (hc : c < celda config t.cpu.pcbActual t.memoria p ∨
      celda config t.cpu.pcbActual t.memoria p + 4 ≤ c) :
    (asignar config r t.cpu t.memoria p valor).2.main c = t.memoria.main c := by
  rcases direccion_eq config t p ht hmem with ⟨hpage, hoffset, hshort, hshort'⟩
  have hadm := ht.admitido
  have hnonneg := Int.emod_nonneg p (Int.ne_of_gt hadm.positivo)
  unfold asignar
  rw [hpage, hoffset]
  extract_lets page offset packet data m
  rcases memoryRequest_decodes r t.cpu.pcbActual .OP_ME_ALMBYTPAG _ _ r.server hshort hshort' with
    ⟨hreq, hreq', hsize⟩
  have hanswer := almBytPag_accepted t.memoria t.cpu.conn r.server packet r.serverData data
    (by rw [hreq']; omega) (by rw [hsize]; omega)
  have hstore := setBytes_apply t.memoria.marcoSize t.memoria.main
    (getFrame t.memoria.pageTable data.usrpid page) offset 4 (data.pointer r.serverData) hnonneg
    (by decide) c
  have hcelda : getFrame t.memoria.pageTable data.usrpid page * t.memoria.marcoSize + offset
      = celda config t.cpu.pcbActual t.memoria p := by
    rw [hadm.marco]
    rfl
  change m.1.main c = _
  rw [show m.1 = _ from congrArg Prod.fst hanswer, hreq, hreq', hsize]
  rw [hcelda] at hstore
  exact hstore.trans (if_neg (by omega))

/-- The code is in other frames than the stack. -/
theorem stored_asignar (r : Residue) (t : Proceso) (p valor : Int) (ht : Guarda config t)
    (hmem : p ∈ posiciones config t.cpu.pcbActual)
    (hpaginas : (codigo.length : Int) ≤ t.cpu.pcbActual.pagesCode * config.tamanioPagina)
    (hcodigo : Stored t.memoria (usuario t.cpu.pcbActual) codigo) :
    Stored (asignar config r t.cpu t.memoria p valor).2 (usuario t.cpu.pcbActual) codigo := by
  have hadm := ht.admitido
  have hpos := hadm.positivo
  rcases asignar_main config r t p valor ht hmem with ⟨conn, main, heq, _, _⟩
  intro k hk
  rcases hcodigo k hk with ⟨i, hfirst, hbyte⟩
  have hframe := asignar_frame r t p valor
    (i * t.memoria.marcoSize + k % t.memoria.marcoSize) ht hmem ?_
  · rw [heq] at hframe ⊢
    exact ⟨i, hfirst, hframe.trans hbyte⟩
  · rcases posicion_page config t p ht hmem with ⟨hlo, hhi⟩
    rcases marcoDe_mapped config _ _ _ hadm hlo hhi with ⟨j, hj, hmapped⟩
    have haligned := (posicion_aligned config _ p ht.apilada hmem).1
    have hfit := Paging.word_fits config.tamanioPagina 4 p (by decide) hpos hadm.multiplo haligned
    have hoffset := Int.emod_nonneg p (Int.ne_of_gt hpos)
    have hk' := Int.emod_lt_of_pos (k : Int) hpos
    have hk'' := Int.emod_nonneg (k : Int) (Int.ne_of_gt hpos)
    rw [hadm.marco] at hfirst ⊢
    rw [celda, Paging.place, hj]
    -- The page of the code comes before those of the stack, so that the frames differ.
    have hpage : (k : Int) / config.tamanioPagina < t.cpu.pcbActual.pagesCode :=
      Int.ediv_lt_of_lt_mul hpos (by omega)
    have hne : i ≠ j := by
      rintro rfl
      have hsame := (mapped_inj _ _ _ _ _ _ hfirst.1 hmapped).2
      omega
    rcases Nat.lt_or_gt_of_ne hne with hlt | hgt
    · have hbelow := Paging.frame_lt config.tamanioPagina i j (k % config.tamanioPagina + 1)
        (p % config.tamanioPagina) hpos (by omega) (by omega) hoffset
      exact .inl (by omega)
    · have hbelow := Paging.frame_lt config.tamanioPagina j i (p % config.tamanioPagina + 4)
        (k % config.tamanioPagina) hpos (by omega) hfit hk''
      exact .inr (by omega)

/-- A value is assigned to a variable. -/
theorem Representa.escribe (h : Representa config codigo programa s a) (r : Residue)
    (p valor : Int) (b : Ambiente) (hb : a.escribe p valor = some b) :
    Representa config codigo programa
      { s with
        cpu := (asignar config r s.cpu s.memoria p valor).1
        memoria := (asignar config r s.cpu s.memoria p valor).2 } b := by
  unfold Ambiente.escribe at hb
  cases hcell : celdaDe p with
  | none =>
      rw [hcell] at hb
      exact absurd hb.symm (Option.some_ne_none _)
  | some cell =>
      rw [hcell] at hb
      simp only [Option.ite_none_right_eq_some, Option.some.injEq] at hb
      rcases hb with ⟨⟨hlt, hshort⟩, rfl⟩
      have hp := (celdaDe_eq_some p cell).mp hcell
      have hmem : p ∈ posiciones config s.cpu.pcbActual := by
        rw [hp]
        exact mem_posiciones config _ a.pila cell h.guarda.apilada h.trazada hlt
      have hstep : (s.proceso a.pila).step config (.asignar r p valor) = some
          { cpu := (asignar config r s.cpu s.memoria p valor).1
            memoria := (asignar config r s.cpu s.memoria p valor).2
            valores := Function.update (s.proceso a.pila).valores p (some valor) } := if_pos hmem
      have hguarda := guarda_asignar config r _ _ p valor h.guarda hstep
      have hcodigo := stored_asignar r (s.proceso a.pila) p valor h.guarda hmem
        h.instalado.paginas h.guardado
      -- The value is the one of the cell, and the other cells keep theirs.
      have hvalores : Function.update (s.proceso a.pila).valores p (some valor)
          = fun q => (celdaDe q).bind (a.pila.write cell valor).read := by
        funext q
        by_cases hq : q = p
        · rw [hq, Function.update_self, hcell, Option.bind_some, a.pila.read_write _ _ _ hlt,
            if_pos rfl]
        · rw [Function.update_of_ne hq]
          refine Option.bind_congr fun other hother => ?_
          rw [a.pila.read_write _ _ _ hlt, if_neg]
          rintro rfl
          rw [(celdaDe_eq_some q other).mp hother] at hq
          exact hq hp.symm
      rw [hvalores] at hguarda
      rcases asignar_main config r (s.proceso a.pila) p valor h.guarda hmem with
        ⟨conn, main, heq, _, _⟩
      have hcpu : (asignar config r s.cpu s.memoria p valor).1 = { s.cpu with conn := conn } :=
        congrArg Prod.fst heq
      rw [hcpu] at hguarda ⊢
      refine ⟨hguarda, h.trazada, h.instalado, hcodigo, fun other v hread => ?_, h.contador,
        h.sinLugar, h.terminado, h.control, h.dichos⟩
      rw [a.pila.read_write _ _ _ hlt] at hread
      split at hread
      · rw [Option.some.injEq] at hread
        exact hread ▸ hshort
      · exact h.cortos other v hread

/-- A control block that fits the buffer is sent. -/
theorem pcbPacket_fits (r : Residue) (pcb : Pcb) (opcode : Opcode)
    (h : pcbBytes pcb ≤ bufferCapacity) :
    ∃ packet, pcbPacket r pcb opcode = some packet ∧ packet.header.opcode = opcode := by
  have hsome : ∃ packet, pcbPacket r pcb opcode = some packet :=
    ⟨_, if_neg (Nat.not_lt.mpr h)⟩
  rcases hsome with ⟨packet, hpacket⟩
  exact ⟨packet, hpacket, (pcbPacket_carries r pcb opcode packet hpacket).1⟩

/-- A control block with fewer contexts fits all the more. -/
theorem pcbBytes_closed (pcb : Pcb) (pc stackPointer : Int) :
    pcbBytes { pcb with PC := pc, stack := [], stackPointer := stackPointer } ≤ pcbBytes pcb := by
  rw [pcbBytes_eq, pcbBytes_eq pcb]
  change programBytes pcb + 0 + 0 ≤ _
  omega

/-- The last context is taken away, and the innermost scope is left. -/
theorem Representa.cierra (h : Representa config codigo programa s a) (below : List Stack)
    (contexto : Stack) (outer : List (Scope (Option Int) Int)) (scope : Scope (Option Int) Int)
    (hstack : s.cpu.pcbActual.stack = below ++ [contexto])
    (hscopes : a.pila.scopes = outer ++ [scope])
    (hbelow : Trazada config 0 below outer) (pc : Int) :
    Representa config codigo programa
      { s with cpu := { s.cpu with
        pcbActual := { s.cpu.pcbActual with
          PC := pc
          stack := below
          stackPointer := s.cpu.pcbActual.stackPointer
            - tamanioVariable * (contexto.args.length + contexto.vars.length) } } }
      { a with pila := a.pila.leave, pc := pc } := by
  have houter : a.pila.outer = outer := by rw [Machine.outer, hscopes, List.dropLast_concat]
  refine h.withStack _ a.pila.leave pc rfl (.vuelta contexto hstack ?_) ?_
    fun cell valor hread => a.pila.read_leave cell valor hread
  · simp only [Cpu.vivas, Nat.cast_add]
  · change Trazada config 0 below a.pila.outer
    rw [houter]
    exact hbelow

/-- The program ends. -/
theorem Representa.acaba {pila : Pila}
    (h : Representa config codigo programa s { a with pila := pila }) (r : Residue)
    (hfits : pcbBytes s.cpu.pcbActual ≤ bufferCapacity) :
    ∃ sent, finalizarPor r s.cpu.pcbActual .OP_CPU_PROGRAM_END = some sent ∧
      Representa config codigo programa
        { s with cpu := { s.cpu with finPrograma := true }, dichos := s.dichos ++ dicho sent }
        { a with pila := pila, terminado := true, dichos := a.dichos ++ [.fin] } := by
  rcases pcbPacket_fits r s.cpu.pcbActual .OP_CPU_PROGRAM_END hfits with ⟨packet, hpacket, hop⟩
  refine ⟨[packet], by rw [finalizarPor, hpacket]; rfl, ?_⟩
  refine ⟨h.guarda.congr rfl rfl rfl, h.trazada,
    h.instalado, h.guardado, h.cortos, h.contador, h.sinLugar, rfl, h.control, ?_⟩
  rw [List.map_append, dicho, hop, h.dichos]
  rfl

/-- A function ends, and the program with the outermost one. -/
theorem Representa.finaliza (h : Representa config codigo programa s a) (r : Residue)
    (hfits : pcbBytes s.cpu.pcbActual ≤ bufferCapacity) :
    ∃ f sent, finalizar r s.cpu = some (f, sent) ∧
      Representa config codigo programa { s with cpu := f, dichos := s.dichos ++ dicho sent }
        a.finaliza := by
  unfold finalizar Ambiente.finaliza
  rcases trazada_last config 0 _ _ h.trazada with ⟨hstack, hscopes⟩ |
    ⟨below, contexto, outer, scope, hstack, hscopes, hbelow, hlast⟩
  · -- Without a scope there is nothing to take away, and the program ends.
    have hsame : Representa config codigo programa s { a with pila := a.pila.leave } := by
      refine ⟨⟨h.guarda.admitido, h.guarda.apilada, h.guarda.limite, fun p valor hvalor => ?_⟩,
        ?_, h.instalado, h.guardado,
        fun cell valor hread => h.cortos cell valor (a.pila.read_leave cell valor hread),
        h.contador, h.sinLugar, h.terminado, h.control, h.dichos⟩
      · rcases Option.bind_eq_some_iff.mp hvalor with ⟨cell, hcell, hread⟩
        exact h.guarda.valores p valor (Option.bind_eq_some_iff.mpr
          ⟨cell, hcell, a.pila.read_leave cell valor hread⟩)
      · change Trazada config 0 s.cpu.pcbActual.stack a.pila.outer
        rw [Machine.outer, hscopes, hstack]
        trivial
    rcases hsame.acaba r hfits with ⟨sent, hsent, hend⟩
    have hpcb : { s.cpu.pcbActual with
        stack := ([] : List Stack), stackPointer := s.cpu.pcbActual.stackPointer }
        = s.cpu.pcbActual := by rw [← hstack]
    rw [hscopes, Machine.outer, hscopes, hstack]
    simp only [List.getLast?_nil, List.dropLast_nil, hpcb, hsent, Option.map_some]
    exact ⟨_, sent, rfl, hend⟩
  · rw [hscopes, Machine.outer, hscopes, hstack]
    simp only [List.getLast?_concat, List.dropLast_concat]
    cases below with
    | nil =>
        -- The last scope is `main`'s, and with it the program ends.
        cases outer with
        | cons first outer => exact absurd hbelow (by simp only [Trazada, not_false_eq_true])
        | nil =>
            have hclosed := h.cierra [] contexto [] scope hstack hscopes hbelow
              s.cpu.pcbActual.PC
            have hpc : { a with pila := a.pila.leave, pc := s.cpu.pcbActual.PC }
                = { a with pila := a.pila.leave } := by rw [h.contador]
            rw [hpc] at hclosed
            rcases hclosed.acaba r ((pcbBytes_closed _ _ _).trans hfits) with ⟨sent, hsent, hend⟩
            simp only at hsent
            simp only [hsent, Option.map_some]
            exact ⟨_, sent, rfl, hend⟩
    | cons head below =>
        cases outer with
        | nil => exact absurd hbelow (by simp only [Trazada, not_false_eq_true])
        | cons first outer =>
            -- The caller goes on where it has called.
            refine ⟨_, [], rfl, ?_⟩
            have hclosed := h.cierra (head :: below) contexto (first :: outer) scope hstack hscopes
              hbelow scope.back
            change Representa config codigo programa _
              { a with pila := a.pila.leave, pc := scope.back }
            simp only [hlast.vuelta, dicho, List.append_nil]
            exact hclosed

/-- A function ends with a result. -/
theorem Representa.retorna (h : Representa config codigo programa s a) (r : Residue)
    (retorno : Int) (scope : Scope (Option Int) Int) (b : Ambiente)
    (hscope : a.pila.scopes.getLast? = some scope)
    (hb : a.escribe (direccion scope.result) retorno = some b)
    (hfits : pcbBytes s.cpu.pcbActual ≤ bufferCapacity) :
    ∃ f mem sent, retornar config r s.cpu s.memoria retorno = some (f, mem, sent) ∧
      Representa config codigo programa
        { cpu := f, memoria := mem, dichos := s.dichos ++ dicho sent } b.finaliza := by
  have hstored := h.escribe r (direccion scope.result) retorno b hb
  rcases hstored.finaliza r hfits with ⟨f, sent, hfinalizar, hend⟩
  have hcell : scope.result < a.pila.values.length := by
    unfold Ambiente.escribe at hb
    rw [celdaDe_direccion] at hb
    simp only [Option.ite_none_right_eq_some] at hb
    exact hb.1.1
  refine ⟨f, _, sent, ?_, hend⟩
  unfold retornar
  rcases trazada_last config 0 _ _ h.trazada with ⟨_, hscopes⟩ |
    ⟨below, contexto, outer, last, hstack, hscopes, _, hlast⟩
  · rw [hscopes] at hscope
    exact absurd hscope.symm (Option.some_ne_none _)
  · rw [hscopes, List.getLast?_concat, Option.some.injEq] at hscope
    rw [hstack, List.getLast?_concat]
    simp only [hlast.resultado, hscope, h.puntero scope.result hcell, hfinalizar, Option.map_some]

theorem mapped_iff_marks (table : PageTable) (pid page : Int) (i : Nat) :
    Mapped table pid page i ↔ 0 < pid ∧ (marks table pid page)[i]? = some true := by
  unfold Mapped marks
  refine and_congr_right fun _ => ?_
  rw [List.getElem?_map, Option.map_eq_some_iff]
  constructor
  · intro h
    exact ⟨_, h, by rw [beq_self_eq_true, beq_self_eq_true, Bool.and_self]⟩
  · rintro ⟨row, hrow, hmark⟩
    rw [Bool.and_eq_true, beq_iff_eq, beq_iff_eq] at hmark
    rw [hrow, ← hmark.1, ← hmark.2]

/-- A table with the same entries for a process has its first frames where they were. -/
theorem firstFrame_congr (table table' : PageTable) (pid page : Int) (i : Nat)
    (hmarks : marks table' pid page = marks table pid page)
    (h : FirstFrame table pid page i) : FirstFrame table' pid page i := by
  simp only [FirstFrame, mapped_iff_marks, hmarks] at h ⊢
  exact h

/-- An instruction that ends in the page in which it starts. -/
theorem samePage (size : Int) (start length n : Nat) (hsize : 0 < size)
    (hpage : ((start : Int) + length - 1) / size = start / size) (hn : n < length) :
    ((start + n : Nat) : Int) / size = start / size := by
  have hlo := Int.ediv_le_ediv hsize (show (start : Int) ≤ (start + n : Nat) by omega)
  have hhi := Int.ediv_le_ediv hsize
    (show ((start + n : Nat) : Int) ≤ start + length - 1 by omega)
  omega

/-- The text of the next instruction arrives as it is. -/
theorem Representa.trae (h : Representa config codigo programa s a) (r : Residue) (i : Int)
    (linea : Linea) (hlinea : programa.linea a.pc = some linea)
    (hreply : ∀ instruccion ∈ instruccionActual s.cpu.pcbActual,
      ∃ k < bufferCapacity, instruccion.offset ≤ (k : Int) ∧ r.reply k = 0) :
    ∃ conn, buscarLinea config r s.cpu s.memoria i
      = some ({ s.cpu with conn := conn, control := .linea i linea }, s.memoria) := by
  have hadm : Admitido config s.cpu.pcbActual s.memoria := h.guarda.admitido
  have hmarco : s.memoria.marcoSize = config.tamanioPagina := hadm.marco
  rw [← h.instalado.programa] at hlinea
  simp only [Programa.de, ← h.contador] at hlinea
  have hpc : ¬ s.cpu.pcbActual.PC < 0 := by
    intro hc
    rw [if_pos hc] at hlinea
    exact absurd hlinea.symm (Option.some_ne_none _)
  rw [if_neg hpc, Option.map_eq_some_iff] at hlinea
  rcases hlinea with ⟨instruccion, hget, rfl⟩
  have hactual : instruccionActual s.cpu.pcbActual = some instruccion := by
    rw [instruccionActual, if_neg hpc, hget]
  rcases h.instalado.instrucciones instruccion (List.mem_of_getElem? hget) with
    ⟨hstart, hoffset, hcap, hin, hpage⟩
  rcases hreply instruccion hactual with ⟨k, hk', hk, hzero⟩
  rcases instruccion with ⟨start, length⟩
  obtain ⟨start, rfl⟩ := Int.eq_ofNat_of_zero_le hstart
  obtain ⟨length, rfl⟩ := Int.eq_ofNat_of_zero_le (Int.le_of_lt hoffset)
  simp only at hoffset hcap hin hpage hk
  -- The server sends it, because it is in one page.
  have hexact : FetchExact s.memoria.marcoSize s.memoria.pageTable s.cpu.conn r.server r
      s.cpu.pcbActual codigo.length start length := by
    refine fetchExact_of_fetchable _ (hmarco ▸ hadm.positivo) _ hadm.tabla _ _ _ _ _ _ _
      (by omega) (by omega) ⟨by omega, ?_, ?_⟩
    · have hcorto := hadm.corto.2
      have hbelow := Int.emod_lt_of_pos (start : Int) hadm.positivo
      rw [hmarco]
      omega
    · have hcode : (start : Int) / config.tamanioPagina < s.cpu.pcbActual.pagesCode :=
        Int.ediv_lt_of_lt_mul hadm.positivo (by have hentero := h.instalado.paginas; omega)
      have hlo := Int.ediv_nonneg (Int.natCast_nonneg start) (Int.le_of_lt hadm.positivo)
      have hpila := hadm.pila
      have hshort := hadm.paginas.2
      rcases (mem_pagesOf _ _ _).mp (hadm.propias _ hlo (by omega)) with ⟨j, hj⟩
      rcases exists_firstFrame _ _ _ ⟨j, hadm.conocido, hj⟩ with ⟨first, hfirst⟩
      rw [hmarco]
      refine ⟨first, .inl (by omega), fun n hn => ⟨first, ?_, ?_⟩⟩
      · rw [samePage _ start length n hadm.positivo hpage hn]
        exact hfirst
      · rw [samePage _ start length n hadm.positivo hpage hn]
        omega
  rcases hexact s.memoria.main codigo rfl h.guardado with ⟨server, conn, reply, hanswer, hpayload⟩
  have hserver := solBytPag_server _ _ _ _ _ _ _ hanswer
  have hlength : reply.payload.length = length := by
    rw [hpayload, List.length_take, List.length_drop]
    omega
  have hnone : (slice (reply.pointer r.reply) 0 bufferCapacity).all (fun b => b != 0) = false := by
    rw [List.all_eq_false]
    refine ⟨0, ?_, by decide⟩
    have hcell : reply.pointer r.reply (0 + (k : Int)) = 0 := by
      rw [Packet.pointer, Int.zero_add, write_of_notMem _ _ _ _ (by omega), hzero]
    rw [slice, List.mem_map]
    exact ⟨k, List.mem_range.mpr hk', hcell⟩
  have htext : slice (reply.pointer r.reply) 0 ((length : Int) - 1).toNat
      = (codigo.drop start).take ((length : Int) - 1).toNat := by
    rw [slice_of_reads _ _ _ (pointer_reads reply r.reply) _ (by omega), hpayload, List.take_take,
      Nat.min_eq_left (by omega)]
  have hfetched : solBytPag s.memoria s.cpu.conn r.server (pedirProximaInstruccionAMemoria
      config.tamanioPagina r s.cpu.pcbActual { start := start, offset := length })
      = some (s.memoria, conn, reply) := by
    rw [← hmarco, hanswer, hserver]
  refine ⟨conn, ?_⟩
  unfold buscarLinea
  simp only [hactual, hfetched, instruccionLimpia, hnone, htext]
  rw [if_neg (by omega), if_neg (by simp only [Bool.false_eq_true, not_false_eq_true])]
  rfl

/-- Another client is served. -/
theorem Representa.atiende (h : Representa config codigo programa s a) (conn : Connection)
    (heap heapData : Buf) (pedido : Pedido) (t : ServerState × Connection × Packet)
    (hajeno : Ajeno (s.proceso a.pila) (.otro conn heap heapData pedido))
    (ht : pedido.atender s.memoria conn heap heapData = some t) :
    Representa config codigo programa { s with memoria := t.1 } a := by
  have hadm : Admitido config s.cpu.pcbActual s.memoria := h.guarda.admitido
  have hguarda := guarda_otro config (s.proceso a.pila) conn heap heapData pedido t h.guarda
    hajeno ht
  rcases atender_ajeno s.memoria conn heap heapData pedido t (usuario s.cpu.pcbActual) hadm.tabla
    hadm.conocido hajeno.1 (by rintro packet data rfl; exact hajeno.2) ht with
    ⟨hmarco, _, hmarks, hmain⟩
  refine ⟨hguarda, h.trazada, h.instalado, fun k hk => ?_, h.cortos, h.contador, h.sinLugar,
    h.terminado, h.control, h.dichos⟩
  rcases h.guardado k hk with ⟨i, hfirst, hbyte⟩
  have hpos : 0 < s.memoria.marcoSize := hadm.marco ▸ hadm.positivo
  have hlo := Int.emod_nonneg (k : Int) (Int.ne_of_gt hpos)
  have hhi := Int.emod_lt_of_pos (k : Int) hpos
  change ∃ i : Nat, FirstFrame t.1.pageTable _ (k / t.1.marcoSize) i ∧
    t.1.main (i * t.1.marcoSize + k % t.1.marcoSize) = codigo[k]
  rw [hmarco]
  refine ⟨i, firstFrame_congr _ _ _ _ i (hmarks _) hfirst, ?_⟩
  rw [← hbyte]
  refine hmain _ i _ hfirst.1 (by omega) ?_
  rw [Int.add_mul, Int.one_mul]
  omega

/-- The kernel is told something. -/
theorem Representa.dice (h : Representa config codigo programa s a) (d : Dicho) :
    Representa config codigo programa { s with dichos := s.dichos ++ [d.cuerpo] }
      { a with dichos := a.dichos ++ [d] } := by
  refine ⟨h.guarda.congr rfl rfl rfl, h.trazada,
    h.instalado, h.guardado, h.cortos, h.contador, h.sinLugar, h.terminado, h.control, ?_⟩
  rw [List.map_append, h.dichos]
  rfl

/-- The place for a result is kept as a page and an offset. -/
theorem Representa.resultado (h : Representa config codigo programa s a) (p : Int) (cell : Nat)
    (hcell : celdaDe p = some cell) (hlt : cell < a.pila.values.length) :
    toInt (p.tdiv config.tamanioPagina) * config.tamanioPagina
      + toInt (p.tmod config.tamanioPagina) = direccion cell := by
  have hadm : Admitido config s.cpu.pcbActual s.memoria := h.guarda.admitido
  have hp := (celdaDe_eq_some p cell).mp hcell
  have hmem : p ∈ posiciones config s.cpu.pcbActual := by
    rw [hp]
    exact mem_posiciones config _ a.pila cell h.guarda.apilada h.trazada hlt
  rcases posicion_page config (s.proceso a.pila) p h.guarda hmem with ⟨hlo, hhi⟩
  have hnonneg := (posicion_aligned config _ p h.guarda.apilada hmem).2.1
  have hoffset := Int.emod_nonneg p (Int.ne_of_gt hadm.positivo)
  have hbelow := Int.emod_lt_of_pos p hadm.positivo
  have hcodigo := hadm.codigo
  have hcorto := hadm.corto.2
  have hpaginas := hadm.paginas.2
  rw [Int.tdiv_eq_ediv_of_nonneg hnonneg, Int.tmod_eq_emod_of_nonneg hnonneg,
    toInt_of_lt _ hlo (by omega), toInt_of_lt _ hoffset (by omega), ← hp]
  exact Int.ediv_mul_add_emod p config.tamanioPagina

/-- A line ends, and perhaps the execution with it. -/
theorem Representa.acabaLinea (h : Representa config codigo programa s a) (r : Residue)
    (inbox : List Packet) (i : Int) (b : Ambiente)
    (hb : a.pasoLinea programa i .fin = some b) :
    ∃ res, stepLinea config r s.cpu s.memoria inbox i .fin = some res ∧
      Representa config codigo programa
        { cpu := res.state, memoria := res.memoria, dichos := s.dichos ++ dicho res.sent } b := by
  have hsilent : s.dichos ++ dicho [] = s.dichos := List.append_nil _
  unfold Ambiente.pasoLinea at hb
  unfold stepLinea verificarTerminarEjecucion
  rw [h.sinLugar, h.terminado]
  by_cases hlugar : a.sinLugar = true
  · -- The stack is over, and the process goes back to the kernel.
    rw [if_pos hlugar, Option.some.injEq] at hb
    simp only [if_pos hlugar, if_true]
    refine ⟨_, rfl, ?_⟩
    rw [← hb]
    simp only [hsilent]
    exact ⟨h.guarda.congr rfl rfl rfl, h.trazada,
      h.instalado, h.guardado, h.cortos, h.contador, rfl, rfl, rfl, h.dichos⟩
  · rw [if_neg hlugar] at hb
    by_cases hfin : a.terminado = true
    · -- So does one that has ended.
      rw [if_pos hfin, Option.some.injEq] at hb
      simp only [if_neg hlugar, if_pos hfin, if_true]
      refine ⟨_, rfl, ?_⟩
      rw [← hb]
      simp only [hsilent]
      exact ⟨h.guarda.congr rfl rfl rfl, h.trazada,
        h.instalado, h.guardado, h.cortos, h.contador, rfl, rfl, rfl, h.dichos⟩
    · -- Otherwise it is the turn of the next line.
      rw [if_neg hfin, Option.some.injEq] at hb
      simp only [if_neg hlugar, if_neg hfin, Bool.false_eq_true, if_false]
      refine ⟨_, rfl, ?_⟩
      rw [← hb]
      simp only [hsilent]
      have hnext := h.withStack { s.cpu.pcbActual with PC := s.cpu.pcbActual.PC + 1 } a.pila
        (a.pc + 1) (by rw [← h.contador]) (.ninguno rfl rfl) h.trazada fun _ _ hread => hread
      refine ⟨hnext.guarda.congr rfl rfl rfl, hnext.trazada, hnext.instalado, hnext.guardado,
        hnext.cortos, hnext.contador, h.sinLugar, h.terminado, rfl, h.dichos⟩

end Relation

/-- The packets of a call of the kernel, when they fit the buffer. -/
theorem syscallPackets_fits (r : Residue) (pcb : Pcb) (opcode : Opcode) (letra : UInt8)
    (nombre : List UInt8) (hfits : pcbBytes pcb ≤ bufferCapacity)
    (hname : 1 + (cstr nombre).length ≤ bufferCapacity) :
    ∃ packet, syscallPackets r pcb opcode letra nombre
        = some [packet, { header := packet.header, payload := letra :: cstr nombre }] ∧
      packet.header.opcode = opcode := by
  rcases pcbPacket_fits r pcb opcode hfits with ⟨packet, hpacket, hop⟩
  refine ⟨packet, ?_, hop⟩
  unfold syscallPackets
  simp only [hpacket]
  rw [if_neg (Nat.not_lt.mpr hname)]

/-! ### Steps -/

/-- The CPU is about to fetch a line, or is inside one. -/
def Control.fetches : Control → Bool
  | .bucle _ => true
  | _ => false

def Control.enLinea : Control → Option Linea
  | .linea _ resto => some resto
  | _ => none

/-- No buffer is too small for what the step puts into it, and the reply to the request for a
    line is followed by a zero where `strcpy` comes to it. -/
structure Holgado (s : Maquina) (r : Residue) : Prop where
  respuesta : s.cpu.control.fetches →
    ∀ instruccion ∈ instruccionActual s.cpu.pcbActual,
      ∃ k < bufferCapacity, instruccion.offset ≤ (k : Int) ∧ r.reply k = 0
  bloque : ∀ linea ∈ s.cpu.control.enLinea, linea.callsKernel || linea.ends →
    pcbBytes s.cpu.pcbActual ≤ bufferCapacity
  nombre : ∀ linea ∈ s.cpu.control.enLinea, ∀ nombre ∈ linea.nombra,
    1 + (cstr nombre).length ≤ bufferCapacity

/-- The steps that are allowed: the CPU has room, and another client is another process, stays
    within its pages and asks for no more than the buffer of the server holds. -/
def Permitido (s : Maquina) : Momento → Prop
  | .cpu r _ => Holgado s r
  | .otro conn heap heapData pedido =>
      Ajeno (s.proceso .start) (.otro conn heap heapData pedido) ∧
        (pedido.atender s.memoria conn heap heapData).isSome

/-- A call that says nothing to the kernel needs no room. -/
theorem holgado_callada (s : Maquina) (r : Residue) (i : Int) (linea : Linea)
    (hcontrol : s.cpu.control = .linea i linea)
    (hsilent : (linea.callsKernel || linea.ends) = false)
    (hnombra : linea.nombra = none) : Holgado s r := by
  refine ⟨?_, ?_, ?_⟩ <;> rw [hcontrol]
  · exact fun h => absurd h Bool.false_ne_true
  · intro resto hresto
    obtain rfl := Option.some.inj hresto
    rw [hsilent]
    exact fun h => absurd h Bool.false_ne_true
  · intro resto hresto nombre hnombre
    obtain rfl := Option.some.inj hresto
    rw [hnombra] at hnombre
    exact absurd hnombre.symm (Option.some_ne_none _)

/-- The control block of a process without variables, whose pages have been granted and whose
    text has been stored. -/
structure Cargado (config : Config) (codigo : List UInt8) (s : Maquina) : Prop where
  admitido : Admitido config s.cpu.pcbActual s.memoria
  instalado : Instalado config codigo (Programa.de config s.cpu.pcbActual codigo) s.cpu.pcbActual
  guardado : Stored s.memoria (usuario s.cpu.pcbActual) codigo
  stack : s.cpu.pcbActual.stack = []
  stackPointer : s.cpu.pcbActual.stackPointer = 0
  dichos : s.dichos = []

/-- What can be seen of a program on the machine: where it stands, what it has told the kernel,
    where its variables are found, and what is read there. -/
structure Concuerda (config : Config) (s : Maquina) (a : Ambiente) : Prop where
  control : s.cpu.control = a.control
  contador : s.cpu.pcbActual.PC = a.pc
  sinLugar : s.cpu.huboStackOver = a.sinLugar
  terminado : s.cpu.finPrograma = a.terminado
  dichos : s.dichos = a.dichos.map Dicho.cuerpo
  nombres : ∀ identificador cell,
    a.pila.find (esDe identificador) (cual identificador) = some cell →
    obtenerPosicionVariable config s.cpu identificador = some (direccion cell)
  valores : ∀ r p valor, a.lee p = some valor →
    ∃ conn, dereferenciar config r s.cpu s.memoria p
      = some ({ s.cpu with conn := conn }, s.memoria, valor)

section Steps

variable {config : Config} {codigo : List UInt8} {programa : Programa} {s : Maquina}
  {a : Ambiente}

/-- A call of a line, or its end. -/
theorem Representa.pasoLinea (h : Representa config codigo programa s a) (r : Residue)
    (inbox : List Packet) (i : Int) (linea : Linea) (b : Ambiente)
    (hcontrol : s.cpu.control = .linea i linea) (hholgado : Holgado s r)
    (hb : a.pasoLinea programa i linea = some b) :
    ∃ res, stepLinea config r s.cpu s.memoria inbox i linea = some res ∧
      Representa config codigo programa
        { cpu := res.state, memoria := res.memoria, dichos := s.dichos ++ dicho res.sent } b := by
  have hmem : linea ∈ s.cpu.control.enLinea := by rw [hcontrol]; exact Option.mem_some_self linea
  have hbloque := hholgado.bloque linea hmem
  have hnombre := hholgado.nombre linea hmem
  -- Most calls say nothing to the kernel.
  have hsilent : s.dichos ++ dicho [] = s.dichos := List.append_nil _
  cases linea with
  | fin => exact h.acabaLinea r inbox i b hb
  | definirVariable identificador sigue =>
      refine ⟨_, rfl, ?_⟩
      simp only [hsilent]
      exact h.define r identificador i sigue b hb
  | obtenerPosicionVariable identificador sigue =>
      rw [Ambiente.pasoLinea, Option.map_eq_some_iff] at hb
      rcases hb with ⟨cell, hfind, rfl⟩
      refine ⟨_, by rw [stepLinea, h.busca identificador cell hfind]; rfl, ?_⟩
      simp only [hsilent]
      exact h.at _
  | dereferenciar p sigue =>
      rw [Ambiente.pasoLinea, Option.map_eq_some_iff] at hb
      rcases hb with ⟨valor, hlee, rfl⟩
      rcases h.lee r p valor hlee with ⟨conn, hvalue⟩
      refine ⟨_, by rw [stepLinea, hvalue]; rfl, ?_⟩
      simp only [hsilent]
      exact (h.reconnect conn).at _
  | asignar p valor sigue =>
      rw [Ambiente.pasoLinea, Option.map_eq_some_iff] at hb
      rcases hb with ⟨c, hc, rfl⟩
      refine ⟨_, rfl, ?_⟩
      simp only [hsilent]
      exact (h.escribe r p valor c hc).at _
  | obtenerValorCompartida nombre sigue =>
      obtain rfl := Option.some.inj hb
      rcases syscallPackets_fits r s.cpu.pcbActual .OP_CPU_SHARED_VAR 118 nombre
        (hbloque rfl) (hnombre nombre rfl) with ⟨packet, hpackets, hop⟩
      refine ⟨_, by rw [stepLinea, obtenerValorCompartida, hpackets]; rfl, ?_⟩
      simp only [dicho, hop]
      exact (h.dice (.lee nombre)).at _
  | asignarValorCompartida nombre valor sigue =>
      obtain rfl := Option.some.inj hb
      rcases syscallPackets_fits r s.cpu.pcbActual .OP_CPU_SHARED_VAR 97 nombre
        (hbloque rfl) (hnombre nombre rfl) with ⟨packet, hpackets, hop⟩
      have hvalor : (packed r (protocolHeader .CPU .OP_CPU_SHARED_VAR) [.h valor]).payload
          = encH valor :=
        protocolPacket_serialPack _ r.buffer [.h valor] _ (serialPack_eq r.buffer 0 _)
      refine ⟨_, by rw [stepLinea, asignarValorCompartida, hpackets]; rfl, ?_⟩
      simp only [dicho, List.cons_append, List.nil_append, List.map_cons, List.map_nil, hop, hvalor]
      exact (h.dice (.escribe nombre valor)).at _
  | irAlLabel etiqueta sigue =>
      obtain rfl := Option.some.inj hb
      refine ⟨_, rfl, ?_⟩
      simp only [hsilent]
      exact (h.salta etiqueta).at _
  | llamarConRetorno etiqueta dondeRetornar sigue =>
      rw [Ambiente.pasoLinea] at hb
      cases hcell : celdaDe dondeRetornar with
      | none =>
          rw [hcell] at hb
          exact absurd hb.symm (Option.some_ne_none _)
      | some cell =>
          simp only [hcell, Option.ite_none_right_eq_some, Option.some.injEq] at hb
          rcases hb with ⟨hlt, rfl⟩
          refine ⟨_, rfl, ?_⟩
          simp only [hsilent]
          have hresultado := h.resultado dondeRetornar cell hcell hlt
          exact (h.llama _ etiqueta cell rfl rfl rfl hresultado).at _
  | llamarSinRetorno etiqueta sigue =>
      obtain rfl := Option.some.inj hb
      refine ⟨_, rfl, ?_⟩
      simp only [hsilent]
      refine Representa.at (h.llama _ etiqueta 0 rfl rfl rfl ?_) _
      simp only [tStackCreate, Int.zero_mul, Int.add_zero]
      rfl
  | retornar retorno sigue =>
      rw [Ambiente.pasoLinea] at hb
      cases hscope : a.pila.scopes.getLast? with
      | none =>
          rw [hscope] at hb
          exact absurd hb.symm (Option.some_ne_none _)
      | some scope =>
          simp only [hscope, Option.map_eq_some_iff] at hb
          rcases hb with ⟨c, hc, rfl⟩
          rcases h.retorna r retorno scope c hscope hc (hbloque rfl) with
            ⟨f, mem, sent, hretornar, hend⟩
          refine ⟨_, by rw [stepLinea, hretornar]; rfl, ?_⟩
          exact hend.at _
  | finalizar sigue =>
      obtain rfl := Option.some.inj hb
      rcases h.finaliza r (hbloque rfl) with ⟨f, sent, hfinalizar, hend⟩
      refine ⟨_, by rw [stepLinea, hfinalizar]; rfl, ?_⟩
      exact hend.at _
  | signal identificador sigue =>
      obtain rfl := Option.some.inj hb
      rcases syscallPackets_fits r s.cpu.pcbActual .OP_CPU_SEMAPHORE 115 identificador
        (hbloque rfl) (hnombre identificador rfl) with ⟨packet, hpackets, hop⟩
      refine ⟨_, by rw [stepLinea, signalAnsisop, hpackets]; rfl, ?_⟩
      simp only [dicho, hop]
      exact (h.dice (.signal identificador)).at _
  | wait identificador sigue =>
      obtain rfl := Option.some.inj hb
      rcases syscallPackets_fits r s.cpu.pcbActual .OP_CPU_SEMAPHORE 119 identificador
        (hbloque rfl) (hnombre identificador rfl) with ⟨packet, hpackets, hop⟩
      refine ⟨_, by rw [stepLinea, wait, hpackets]; rfl, ?_⟩
      simp only [dicho, hop]
      exact (h.dice (.wait identificador)).at _

/-- A step of the CPU is a step of the program. -/
theorem Representa.paso (h : Representa config codigo programa s a) (r : Residue)
    (inbox : List Packet) (b : Ambiente) (hholgado : Holgado s r)
    (hb : a.paso programa (inbox.head?.map fun packet => unpacki16 (packet.pointer r.reply) 0)
      = some b) :
    ∃ u, s.step config (.cpu r inbox) = some u ∧ Representa config codigo programa u b := by
  have hsilent : s.dichos ++ dicho [] = s.dichos := List.append_nil _
  have hcontrol := h.control
  unfold Ambiente.paso at hb
  unfold Maquina.step step
  cases hwhere : a.control with
  | espera =>
      rw [hwhere] at hb
      exact absurd hb.symm (Option.some_ne_none _)
  | bucle i =>
      -- The quantum is not over, and the next line comes from the memory server.
      rw [hwhere] at hb hcontrol
      simp only [Option.ite_none_right_eq_some, Option.map_eq_some_iff] at hb
      rcases hb with ⟨hquantum, linea, hlinea, rfl⟩
      have hseguir : seguirEjecutando s.cpu.pcbActual i = true := by
        rw [← h.instalado.programa] at hquantum
        unfold seguirEjecutando
        rw [Bool.or_eq_true, decide_eq_true_eq, beq_iff_eq]
        exact hquantum
      rcases h.trae r i linea hlinea (hholgado.respuesta (by rw [hcontrol]; rfl)) with
        ⟨conn, hbuscar⟩
      simp only [hcontrol, hseguir, if_true, hbuscar, Option.map_some]
      refine ⟨_, rfl, ?_⟩
      simp only [hsilent]
      exact (h.reconnect conn).at _
  | linea i linea =>
      rw [hwhere] at hb hcontrol
      rcases h.pasoLinea r inbox i linea b hcontrol hholgado hb with ⟨res, hres, hrepresenta⟩
      simp only [hcontrol, hres, Option.map_some]
      exact ⟨_, rfl, hrepresenta⟩
  | compartida i sigue =>
      -- The answer of the kernel has come, and both read the same number in it.
      rw [hwhere] at hb hcontrol
      cases inbox with
      | nil => exact absurd hb.symm (Option.some_ne_none _)
      | cons packet inbox =>
          obtain rfl := Option.some.inj hb
          simp only [hcontrol, Option.map_some]
          refine ⟨_, rfl, ?_⟩
          simp only [hsilent]
          exact h.at _

theorem Representa.concuerda (h : Representa config codigo programa s a) :
    Concuerda config s a :=
  ⟨h.control, h.contador, h.sinLugar, h.terminado, h.dichos, h.busca, h.lee⟩

theorem Cargado.representa (h : Cargado config codigo s) :
    Representa config codigo (Programa.de config s.cpu.pcbActual codigo) s s.ambiente := by
  have hadm := h.admitido
  refine ⟨⟨hadm, ?_, ?_, fun p valor hvalor => ?_⟩, ?_, h.instalado, h.guardado,
    fun cell valor hread => absurd hread.symm (Option.some_ne_none _), rfl, rfl, rfl, rfl, h.dichos⟩
  · change Apilada config s.cpu.pcbActual
    rw [Apilada, h.stack, h.stackPointer]
    rfl
  · change s.cpu.pcbActual.stackPointer ≤ _
    rw [h.stackPointer]
    exact Int.mul_nonneg hadm.pila (Int.le_of_lt hadm.positivo)
  · rcases Option.bind_eq_some_iff.mp hvalor with ⟨cell, _, hread⟩
    exact absurd hread.symm (Option.some_ne_none _)
  · rw [h.stack]
    trivial

end Steps

/-! ### Runs -/

/-- A program that is executed on the machine, whatever the other clients do in between. -/
theorem representa_run (config : Config) (codigo : List UInt8) (programa : Programa)
    (s : Maquina) (a b : Ambiente) (momentos : List Momento)
    (h : Representa config codigo programa s a)
    (hpermitido : Along (Maquina.step config) Permitido s momentos)
    (hrun : run (Ambiente.paso programa) a (entradas momentos) = some b) :
    ∃ u, run (Maquina.step config) s momentos = some u ∧
      Representa config codigo programa u b := by
  induction momentos generalizing s a with
  | nil =>
      obtain rfl := Option.some.inj hrun
      exact ⟨s, rfl, h⟩
  | cons momento momentos ih =>
      cases momento with
      | cpu r inbox =>
          rcases (run_cons _ a b _ _).mp hrun with ⟨c, hc, hrest⟩
          rcases h.paso r inbox c hpermitido.1 hc with ⟨v, hv, hrepresenta⟩
          rcases ih v c hrepresenta (hpermitido.2 v hv) hrest with ⟨u, hu, hend⟩
          exact ⟨u, (run_cons _ s u _ _).mpr ⟨v, hv, hu⟩, hend⟩
      | otro conn heap heapData pedido =>
          rcases Option.isSome_iff_exists.mp hpermitido.1.2 with ⟨t, ht⟩
          have hv : s.step config (.otro conn heap heapData pedido)
              = some { s with memoria := t.1 } := by rw [Maquina.step, ht]; rfl
          rcases ih _ a (h.atiende conn heap heapData pedido t hpermitido.1.1 ht)
            (hpermitido.2 _ hv) hrun with ⟨u, hu, hend⟩
          exact ⟨u, (run_cons _ s u _ _).mpr ⟨_, hv, hu⟩, hend⟩

/-- A loaded program is executed as it is meant: as long as it has a meaning, the CPU takes its
    steps, and what can be seen on the CPU and in the pages is the state of the program. -/
theorem ansisop_refines (config : Config) (codigo : List UInt8) (s : Maquina) (b : Ambiente)
    (momentos : List Momento) (hcargado : Cargado config codigo s)
    (hpermitido : Along (Maquina.step config) Permitido s momentos)
    (hrun : run (Ambiente.paso (Programa.de config s.cpu.pcbActual codigo)) s.ambiente
      (entradas momentos) = some b) :
    ∃ u, run (Maquina.step config) s momentos = some u ∧ Concuerda config u b := by
  rcases representa_run config codigo _ s s.ambiente b momentos hcargado.representa hpermitido
    hrun with ⟨u, hu, hrepresenta⟩
  exact ⟨u, hu, hrepresenta.concuerda⟩

/-- A line that declares `a`, assigns 5 to it and calls a function for a new value, and the line
    of the function. -/
def sampleLinea (texto : List UInt8) : Linea :=
  if texto = [114] then .retornar 7 .fin
  else .definirVariable 97 fun p => .asignar p 5 (.llamarConRetorno [102] p .fin)

def sampleCodigo : List UInt8 := [118, 10, 114, 10]

def programConfig : Config :=
  { callConfig with parser := { callConfig.parser with analizadorLinea := sampleLinea } }

/-- A process with a page of code and two of stack, and a page of another process. -/
def sampleMaquina : Maquina :=
  { cpu := { callStart.1 with
      control := .bucle 1
      pcbActual := { callStart.1.pcbActual with
        pagesCode := 1
        indexCode := [⟨0, 2⟩, ⟨2, 2⟩]
        indexTag := [{ name := [102], PC := 1 }] } }
    memoria :=
      { marcoSize := 4
        pageTable := [⟨2, 0⟩, ⟨1, 2⟩, ⟨1, 1⟩, ⟨1, 0⟩]
        main := fun c => if c = 12 then 118 else if c = 14 then 114 else 10 }
    dichos := [] }

/-- The first line up to the call. -/
def sampleMomentos : List Momento :=
  List.replicate 3 (.cpu callResidue [])

def sampleAmbiente : Ambiente :=
  { pila := (Machine.start.declare (-1) (some 97)).write 0 5
    pc := 0
    sinLugar := false
    terminado := false
    control := .linea 1 (.llamarConRetorno [102] 0 .fin)
    dichos := [] }

set_option maxRecDepth 4000

theorem sampleMaquina_cargado : Cargado programConfig sampleCodigo sampleMaquina := by
  refine ⟨⟨by decide, by decide, ⟨by decide, by decide⟩, rfl, by decide, by decide,
    ⟨by decide, by decide⟩, by decide, fun row hrow => ?_, fun page hlo hhi => ?_⟩,
    ⟨rfl, fun instruccion h => ?_, by decide, fun _ _ _ => rfl⟩, fun k hk => ?_, rfl, rfl, rfl⟩
  · simp only [sampleMaquina, List.mem_cons, List.not_mem_nil, or_false] at hrow
    rcases hrow with rfl | rfl | rfl | rfl
    · exact .inr ⟨by decide, by decide, by decide⟩
    · exact .inr ⟨by decide, by decide, by decide⟩
    · exact .inr ⟨by decide, by decide, by decide⟩
    · exact .inr ⟨by decide, by decide, by decide⟩
  · have hpages : pagesOf sampleMaquina.memoria.pageTable (usuario sampleMaquina.cpu.pcbActual)
        = [2, 1, 0] := rfl
    have htop : page < 3 := hhi
    rw [hpages, List.mem_cons, List.mem_cons, List.mem_singleton]
    omega
  · simp only [sampleMaquina, List.mem_cons, List.not_mem_nil, or_false] at h
    rcases h with rfl | rfl
    · exact ⟨by decide, by decide, by decide, by decide, by decide⟩
    · exact ⟨by decide, by decide, by decide, by decide, by decide⟩
  · have hfirst : FirstFrame sampleMaquina.memoria.pageTable
        (usuario sampleMaquina.cpu.pcbActual) 0 3 := by
      refine ⟨⟨by decide, rfl⟩, fun j hj hmapped => ?_⟩
      have hrow := hmapped.2
      have hj' : j = 0 ∨ j = 1 ∨ j = 2 := by omega
      rcases hj' with rfl | rfl | rfl <;> exact absurd hrow (by decide)
    have hk' : k = 0 ∨ k = 1 ∨ k = 2 ∨ k = 3 := by
      simp only [sampleCodigo, List.length_cons, List.length_nil] at hk
      omega
    rcases hk' with rfl | rfl | rfl | rfl <;> exact ⟨3, hfirst, rfl⟩

theorem sampleMomentos_permitido :
    Along (Maquina.step programConfig) Permitido sampleMaquina sampleMomentos := by
  refine ⟨⟨fun _ instruccion h => ⟨2, by decide, ?_, rfl⟩, fun _ h => ?_, fun _ h => ?_⟩,
    fun u hu => ⟨?_, fun v hv => ⟨?_, fun _ _ => trivial⟩⟩⟩
  · obtain rfl := Option.some.inj h
    decide
  · exact absurd h.symm (Option.some_ne_none _)
  · exact absurd h.symm (Option.some_ne_none _)
  · obtain rfl := Option.some.inj hu
    exact holgado_callada _ _ _ _ rfl rfl rfl
  · obtain rfl := Option.some.inj hu
    obtain rfl := Option.some.inj hv
    exact holgado_callada _ _ _ _ rfl rfl rfl

/-- The variable is at address 0, with the value that has been assigned to it. -/
theorem sampleMomentos_refined : ∃ u,
    run (Maquina.step programConfig) sampleMaquina sampleMomentos = some u ∧
      Concuerda programConfig u sampleAmbiente :=
  ansisop_refines programConfig sampleCodigo sampleMaquina sampleAmbiente sampleMomentos
    sampleMaquina_cargado sampleMomentos_permitido rfl

end Cpu

end Esther
