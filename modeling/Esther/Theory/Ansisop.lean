import Esther.Lib.Scopes
import Esther.Theory.Fetch
import Esther.Theory.Room
import Esther.Theory.Variables

/-!
# AnSISOP

What a program of the language means, and the machine that executes it.

A program is a list of lines with labels. A line is what the parser makes of its text: calls
that declare variables, look them up, read and assign them, jump, call functions and come
back. The variables are those of `Scopes`: no pages, no frames, no packets. The
address of a variable is four times the number of its cell, because the program is told
addresses and hands them back.

The meaning is a partial one. A program that reads a variable without a value, uses a name it
has not declared or a number that is no variable's address, or assigns a value of more than
sixteen bits, has none from there on; nor has one whose burst ends before it does.

The other machine is a CPU with the memory server, between whose steps other clients are
served.

## Main definitions

* `Programa`, `Ambiente`: A program, and the state it is in.
* `Dicho`: What the kernel is told.
* `Ambiente.paso`: One step of a program.
* `Maquina`, `Momento`: A CPU and the memory server, and what happens to them.
* `Programa.de`: The program a CPU has been given.
* `Maquina.ambiente`: The state of a program at its first line.
-/

namespace Esther

namespace Cpu

open Cells Memoria Serial Transition

/-! ### The language -/

instance decidableShort (v : Int) : Decidable (Short v) := inferInstanceAs (Decidable (_ ∧ _))

/-- What an execution depends on: how many variables there is room for, what is said in place
    of an address when there is none, the lines a burst may have, where the labels lead, and
    the lines. -/
structure Programa where
  capacidad : Int
  sinDireccion : Int
  quantum : Int
  salto : List UInt8 → Option Int
  linea : Int → Option Linea

/-- The scopes. A variable has a letter, an argument has not. -/
abbrev Pila := Scopes.Machine (Option Int) Int Int

/-- What the kernel is told. -/
inductive Dicho
  | lee (nombre : List UInt8)
  | escribe (nombre : List UInt8) (valor : Int)
  | signal (identificador : List UInt8)
  | wait (identificador : List UInt8)
  | fin

/-- A program that is being executed: its variables, the line it is in, whether there was no
    room for a variable, whether it has ended, where it stands in the line, and what it has
    told the kernel. -/
structure Ambiente where
  pila : Pila
  pc : Int
  sinLugar : Bool
  terminado : Bool
  control : Control
  dichos : List Dicho

/-- The address of a cell, and the cell of an address. -/
def direccion (cell : Nat) : Int := tamanioVariable * (cell : Int)

def celdaDe (posicion : Int) : Option Nat :=
  if 0 ≤ posicion ∧ posicion % tamanioVariable = 0 then
    some (posicion / tamanioVariable).toNat
  else none

/-- A digit is the name of an argument: any digit when it is declared, the one that says which
    argument it is when it is looked up. -/
def nombre (identificador : Int) : Option Int :=
  if esArgumento identificador then none else some identificador

def esDe (identificador : Int) : Option Int → Bool :=
  fun x => x == nombre identificador

def cual (identificador : Int) : Nat :=
  if esArgumento identificador then (identificador - 48).toNat else 0

/-- The value at an address. -/
def Ambiente.lee (a : Ambiente) (posicion : Int) : Option Int :=
  (celdaDe posicion).bind a.pila.read

/-- A value that two bytes can carry is put at the address of a variable. -/
def Ambiente.escribe (a : Ambiente) (posicion valor : Int) : Option Ambiente :=
  match celdaDe posicion with
  | some cell =>
      if cell < a.pila.values.length ∧ Short valor then
        some { a with pila := a.pila.write cell valor }
      else none
  | none => none

/-- A jump. A label that is not found is passed over. -/
def Ambiente.salta (programa : Programa) (a : Ambiente) (etiqueta : List UInt8) : Ambiente :=
  match programa.salto etiqueta with
  | some pc => { a with pc := pc }
  | none => a

/-- The end of a function, or of the program if it is the outermost one. -/
def Ambiente.finaliza (a : Ambiente) : Ambiente :=
  match a.pila.outer, a.pila.scopes.getLast? with
  | _ :: _, some scope => { a with pila := a.pila.leave, pc := scope.back }
  | _, _ => { a with pila := a.pila.leave, terminado := true, dichos := a.dichos ++ [.fin] }

/-- The next call of a line, or its end. -/
def Ambiente.pasoLinea (programa : Programa) (a : Ambiente) (i : Int) : Linea → Option Ambiente
  | .fin =>
      if a.sinLugar then some { a with sinLugar := false, control := .espera }
      else if a.terminado then some { a with terminado := false, control := .espera }
      else some { a with pc := a.pc + 1, control := .bucle (i + 1) }
  | .definirVariable identificador sigue =>
      if (a.pila.values.length : Int) < programa.capacidad then
        some { a with
          pila := a.pila.declare (-1) (nombre identificador)
          control := .linea i (sigue (direccion a.pila.values.length)) }
      else
        some { a with
          sinLugar := true
          control := .linea i (sigue programa.sinDireccion) }
  | .obtenerPosicionVariable identificador sigue =>
      (a.pila.find (esDe identificador) (cual identificador)).map fun cell =>
        { a with control := .linea i (sigue (direccion cell)) }
  | .dereferenciar posicion sigue =>
      (a.lee posicion).map fun valor => { a with control := .linea i (sigue valor) }
  | .asignar posicion valor sigue =>
      (a.escribe posicion valor).map fun b => { b with control := .linea i sigue }
  | .obtenerValorCompartida nombre sigue =>
      some { a with dichos := a.dichos ++ [.lee nombre], control := .compartida i sigue }
  | .asignarValorCompartida nombre valor sigue =>
      some { a with
        dichos := a.dichos ++ [.escribe nombre valor]
        control := .linea i (sigue valor) }
  | .irAlLabel etiqueta sigue =>
      some { a.salta programa etiqueta with control := .linea i sigue }
  | .llamarConRetorno etiqueta dondeRetornar sigue =>
      match celdaDe dondeRetornar with
      | some cell =>
          if cell < a.pila.values.length then
            some { Ambiente.salta programa { a with pila := a.pila.enter a.pc cell } etiqueta with
              control := .linea i sigue }
          else none
      | none => none
  | .llamarSinRetorno etiqueta sigue =>
      some { Ambiente.salta programa { a with pila := a.pila.enter a.pc 0 } etiqueta with
        control := .linea i sigue }
  | .retornar retorno sigue =>
      match a.pila.scopes.getLast? with
      | some scope => (a.escribe (direccion scope.result) retorno).map fun b =>
          { b.finaliza with control := .linea i sigue }
      | none => none
  | .finalizar sigue => some { a.finaliza with control := .linea i sigue }
  | .signal identificador sigue =>
      some { a with dichos := a.dichos ++ [.signal identificador], control := .linea i sigue }
  | .wait identificador sigue =>
      some { a with dichos := a.dichos ++ [.wait identificador], control := .linea i sigue }

/-- One step of a program. It may be waiting for the value of a shared variable, which comes
    from outside. -/
def Ambiente.paso (programa : Programa) (a : Ambiente) (valor : Option Int) : Option Ambiente :=
  match a.control with
  | .espera => none
  | .bucle i =>
      if i ≤ programa.quantum ∨ programa.quantum = 0 then
        (programa.linea a.pc).map fun linea => { a with control := .linea i linea }
      else none
  | .linea i linea => a.pasoLinea programa i linea
  | .compartida i sigue => valor.map fun valor => { a with control := .linea i (sigue valor) }

/-! ### The machine -/

/-- A CPU, the memory server, and what the kernel has been told: for each call the operation
    of its packets and what there is in those that follow the control block. -/
structure Maquina where
  cpu : State
  memoria : ServerState
  dichos : List (Opcode × List (List UInt8))

/-- A step of the CPU, with the packets of the kernel it may read, or a request of another
    client. -/
inductive Momento
  | cpu (r : Residue) (inbox : List Packet)
  | otro (conn : Connection) (heap heapData : Buf) (pedido : Pedido)

/-- What the kernel is told by the packets of a step. The content of the first one, which is
    the control block, is left out. -/
def dicho : List Packet → List (Opcode × List (List UInt8))
  | [] => []
  | packet :: rest => [(packet.header.opcode, rest.map fun packet => packet.payload)]

def Maquina.step (config : Config) (s : Maquina) : Momento → Option Maquina
  | .cpu r inbox =>
      (Cpu.step config r s.cpu s.memoria inbox).map fun res =>
        { cpu := res.state, memoria := res.memoria, dichos := s.dichos ++ dicho res.sent }
  | .otro conn heap heapData pedido =>
      (pedido.atender s.memoria conn heap heapData).map fun a => { s with memoria := a.1 }

/-- What the steps of the CPU find in the packets of the kernel. -/
def entradas (momentos : List Momento) : List (Option Int) :=
  momentos.filterMap fun
    | .cpu r inbox => some (inbox.head?.map fun packet => unpacki16 (packet.pointer r.reply) 0)
    | .otro _ _ _ _ => none

/-- How it is said. -/
def Dicho.cuerpo : Dicho → Opcode × List (List UInt8)
  | .lee nombre => (.OP_CPU_SHARED_VAR, [118 :: cstr nombre])
  | .escribe nombre valor => (.OP_CPU_SHARED_VAR, [97 :: cstr nombre, encH valor])
  | .signal identificador => (.OP_CPU_SEMAPHORE, [115 :: cstr identificador])
  | .wait identificador => (.OP_CPU_SEMAPHORE, [119 :: cstr identificador])
  | .fin => (.OP_CPU_PROGRAM_END, [])

/-! ### The program of a control block -/

/-- The text of an instruction. Its last byte ends the line. -/
def texto (codigo : List UInt8) (instruccion : Instruction) : List UInt8 :=
  cstr ((codigo.drop instruccion.start.toNat).take (instruccion.offset - 1).toNat)

/-- The program in a control block, whose text is `codigo`. Where a label leads is what the
    code's own `busquedaEtiqueta` says, which finds the first label of the index and no other:
    that the labels are looked up rightly is not part of the meaning. -/
def Programa.de (config : Config) (pcb : Pcb) (codigo : List UInt8) : Programa :=
  { capacidad := config.stackSize * config.tamanioPagina / tamanioVariable
    sinDireccion := config.puntero (-1)
    quantum := pcb.quantum
    salto := fun etiqueta =>
      if busquedaEtiqueta config pcb etiqueta = config.puntero (-1) then none
      else some (toInt (busquedaEtiqueta config pcb etiqueta - 1))
    linea := fun pc =>
      if pc < 0 then none
      else (pcb.indexCode[pc.toNat]?).map fun instruccion =>
        config.parser.analizadorLinea (texto codigo instruccion) }

/-- The program before its next line, without variables. -/
def Maquina.ambiente (s : Maquina) : Ambiente :=
  { pila := .start
    pc := s.cpu.pcbActual.PC
    sinLugar := s.cpu.huboStackOver
    terminado := s.cpu.finPrograma
    control := s.cpu.control
    dichos := [] }

end Cpu

end Esther
