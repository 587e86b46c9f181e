import Esther.Core.Memoria
import Esther.Core.Parser

/-!
# The CPU

The CPU process: the message loop, the execution loop `ejecutarPrograma`, and the
primitives the parser calls while a line is executed.

The process is followed in steps no larger than one call of a primitive, since a
primitive may send packets to the kernel and the kernel may act on them before
the line is finished. `Control` is where the process stands between two steps.
A primitive's packets leave together. The memory server answers at once, by the
same functions it answers everybody with.

`t_puntero` is a type of the parser library; a value converted to it goes
through `puntero`.

A step for which the C program has no defined behaviour returns `none`, and so
does one that has to wait for a packet.

## Main definitions

* `Config`, `State`, `Control`: The data of the process.
* `pedirProximaInstruccionAMemoria`: The request for the next instruction.
* `definirVariable` to `wait`: The primitives.
* `verificarTerminarEjecucion`: The test after each line.
* `step`: One step of the process.
-/

namespace Esther

namespace Cpu

open Cells Serial

/-- What the kernel sent on connection, the parser, and the conversion to
    `t_puntero`. -/
structure Config where
  stackSize : Int
  tamanioPagina : Int
  parser : Parser
  puntero : Int → Int

/-- Where the process stands: waiting in `recibirMensajesDeKernel`, at the test
    of the loop of `ejecutarPrograma`, inside `analizadorLinea`, or waiting for a
    value in `obtenerValorCompartida`. The number is the loop's `i`. -/
inductive Control
  | espera
  | bucle (i : Int)
  | linea (i : Int) (linea : Linea)
  | compartida (i : Int) (sigue : Int → Linea)

/-- The global variables, with the memory server's side of the connection. -/
structure State where
  pcbActual : Pcb
  procesoBloqueado : Bool
  huboStackOver : Bool
  finPrograma : Bool
  control : Control
  conn : Memoria.Connection

/-- The globals as they are initialised, on a connection to the memory server. No
    control block has been received. -/
def State.init (conn : Memoria.Connection) : State :=
  { pcbActual := default
    procesoBloqueado := false
    huboStackOver := false
    finPrograma := false
    control := .espera
    conn := conn }

/-- What a step reads without anybody having written it: the bytes after a
    payload, at the server and here, the local buffer, and the `id` of a variable
    just allocated. -/
structure Residue where
  server : Buf
  serverData : Buf
  reply : Buf
  buffer : Buf
  id : Int

/-- What a step leads to: the process, the memory server, the packets still
    unread, and the packets sent to the kernel. -/
structure Result where
  state : State
  memoria : Memoria.ServerState
  inbox : List Packet
  sent : List Packet

/-- `tamanioVariable`. -/
def tamanioVariable : Int := 4

/-- `serial_pack` into the local buffer, as a packet. -/
def packed (r : Residue) (header : Header) (args : List Arg) : Packet :=
  let p := serialPack r.buffer 0 args
  protocolPacket header p.1 p.2

/-- A request to the memory server, for a cell of the process. -/
def memoryRequest (r : Residue) (pcb : Pcb) (opcode : Opcode) (page offset size : Int) : Packet :=
  packed r { protocolHeader .CPU opcode with usrpid := byte pcb.idProcess }
    [.h page, .h offset, .h size]

/-- The entry of the code index at the program counter, if it has one. -/
def instruccionActual (pcb : Pcb) : Option Instruction :=
  if pcb.PC < 0 then none else pcb.indexCode[pcb.PC.toNat]?

/-- The request `pedirProximaInstruccionAMemoria` sends for an entry of the code
    index: where it starts is split into a page and an offset. -/
def pedirProximaInstruccionAMemoria (tamanioPagina : Int) (r : Residue) (pcb : Pcb)
    (instruccion : Instruction) : Packet :=
  let page := instruccion.start.tdiv tamanioPagina
  let offset := instruccion.start.tmod tamanioPagina
  memoryRequest r pcb .OP_ME_SOLBYTPAG page offset instruccion.offset

/-- The line made of the reply: all but the last byte. The reply is copied with
    `strcpy` first, so a terminator has to be near. -/
def instruccionLimpia (r : Residue) (size : Int) (reply : Packet) : Option (List UInt8) :=
  let payload := reply.pointer r.reply
  if size ≤ 0 then none
  else if (slice payload 0 bufferCapacity).all fun b => b != 0 then none
  else some (cstr (slice payload 0 (size - 1).toNat))

/-- `t_stack_create`. -/
def tStackCreate : Stack :=
  { args := [], vars := [], retPos := -1, retVar := { page := 0, offset := 0, size := 0 } }

/-- `esArgumento`, that is, `isdigit`. -/
def esArgumento (identificador : Int) : Bool := 48 ≤ identificador && identificador ≤ 57

/-- Apply a function to the last context, creating one if there is none. -/
def enContexto (stack : List Stack) (f : Stack → Stack) : List Stack :=
  match stack.getLast? with
  | some lineaStack => stack.dropLast ++ [f lineaStack]
  | none => [f tStackCreate]

/-- `definirVariable`. An argument keeps whatever `id` the allocator left in
    it. -/
def definirVariable (config : Config) (r : Residue) (s : State) (identificador : Int) :
    State × Int :=
  let pcb := s.pcbActual
  if pcb.stackPointer + 4 > config.stackSize * config.tamanioPagina then
    ({ s with huboStackOver := true }, config.puntero (-1))
  else
    let mempos : Mempos :=
      { page := pcb.stackPointer.tdiv config.tamanioPagina
        offset := pcb.stackPointer.tmod config.tamanioPagina
        size := tamanioVariable }
    let stack := enContexto pcb.stack fun lineaStack =>
      if esArgumento identificador then
        { lineaStack with args := lineaStack.args ++ [{ id := r.id, mempos := mempos }] }
      else
        { lineaStack with vars := lineaStack.vars ++ [{ id := identificador, mempos := mempos }] }
    ({ s with
        pcbActual :=
          { pcb with stack := stack, stackPointer := pcb.stackPointer + tamanioVariable } },
      config.puntero pcb.stackPointer)

/-- `obtenerPosicionVariable`. The bound on the arguments lets one index too many
    through, for which `list_get` returns a null pointer. -/
def obtenerPosicionVariable (config : Config) (s : State) (identificador : Int) : Option Int :=
  let posicion := fun v : Var =>
    config.puntero (v.mempos.page * config.tamanioPagina + v.mempos.offset)
  match s.pcbActual.stack.getLast? with
  | none => some (config.puntero 1)
  | some contexto =>
      if esArgumento identificador then
        if identificador - 48 > contexto.args.length then some (config.puntero 1)
        else (contexto.args[(identificador - 48).toNat]?).map posicion
      else match contexto.vars.find? fun v => v.id == identificador with
        | some v => some (posicion v)
        | none => some (config.puntero 1)

/-- The page and offset `dereferenciar` and `asignar` compute for an address. -/
def direccionPage (config : Config) (pcb : Pcb) (direccion : Int) : Int :=
  toInt (direccion.tdiv config.tamanioPagina + pcb.pagesCode)

def direccionOffset (config : Config) (direccion : Int) : Int :=
  toInt (direccion.tmod config.tamanioPagina)

/-- `dereferenciar`: the value is the first two bytes of what was read. -/
def dereferenciar (config : Config) (r : Residue) (s : State) (mem : Memoria.ServerState)
    (direccion : Int) : Option (State × Memoria.ServerState × Int) :=
  let packet := memoryRequest r s.pcbActual .OP_ME_SOLBYTPAG
    (direccionPage config s.pcbActual direccion) (direccionOffset config direccion) tamanioVariable
  match Memoria.solBytPag mem s.conn r.server packet with
  | some (mem, conn, reply) => some ({ s with conn := conn }, mem, unpacki16 (reply.pointer r.reply) 0)
  | none => none

/-- `asignar`: four bytes are announced and two are sent. -/
def asignar (config : Config) (r : Residue) (s : State) (mem : Memoria.ServerState)
    (direccion valor : Int) : State × Memoria.ServerState :=
  let page := direccionPage config s.pcbActual direccion
  let offset := direccionOffset config direccion
  let packet := memoryRequest r s.pcbActual .OP_ME_ALMBYTPAG page offset tamanioVariable
  let data := packed r packet.header [.h valor]
  let m := Memoria.almBytPag mem s.conn r.server packet r.serverData data
  ({ s with conn := m.2.1 }, m.1)

/-- `busquedaEtiqueta`: the loop returns in its first round. -/
def busquedaEtiqueta (config : Config) (pcb : Pcb) (etiqueta : List UInt8) : Int :=
  if pcb.tags ≤ 0 then config.puntero (-1)
  else match pcb.indexTag with
    | tag :: _ =>
        if cstr tag.name = cstr etiqueta then config.puntero tag.PC else config.puntero (-1)
    | [] => config.puntero (-1)

/-- `irAlLabel`. -/
def irAlLabel (config : Config) (pcb : Pcb) (etiqueta : List UInt8) : Pcb :=
  let numeroInstr := busquedaEtiqueta config pcb etiqueta
  if numeroInstr = config.puntero (-1) then pcb
  else { pcb with PC := toInt (numeroInstr - 1) }

/-- `llamarConRetorno`. -/
def llamarConRetorno (config : Config) (pcb : Pcb) (etiqueta : List UInt8) (dondeRetornar : Int) :
    Pcb :=
  let retVar : Mempos :=
    { page := toInt (dondeRetornar.tdiv config.tamanioPagina)
      offset := toInt (dondeRetornar.tmod config.tamanioPagina)
      size := tamanioVariable }
  irAlLabel config
    { pcb with stack := pcb.stack ++ [{ tStackCreate with retVar := retVar, retPos := pcb.PC }] }
    etiqueta

/-- `llamarSinRetorno`. -/
def llamarSinRetorno (config : Config) (pcb : Pcb) (etiqueta : List UInt8) : Pcb :=
  irAlLabel config { pcb with stack := pcb.stack ++ [{ tStackCreate with retPos := pcb.PC }] }
    etiqueta

/-- The control block of the process as a packet to the kernel. The buffer it is
    packed into has to hold it. -/
def pcbPacket (r : Residue) (pcb : Pcb) (opcode : Opcode) : Option Packet :=
  let s := serialPackPcb pcb r.buffer
  if bufferCapacity < pcbBytes pcb then none
  else some (protocolPacket (protocolHeader .CPU opcode) s.1 s.2)

/-- `finalizarPor`. -/
def finalizarPor (r : Residue) (pcb : Pcb) (type : Opcode) : Option (List Packet) :=
  (pcbPacket r pcb type).map fun packet => [packet]

/-- `finalizar`. -/
def finalizar (r : Residue) (s : State) : Option (State × List Packet) :=
  let contexto := s.pcbActual.stack.getLast?
  let stack := s.pcbActual.stack.dropLast
  let stackPointer := match contexto with
    | some c => s.pcbActual.stackPointer - tamanioVariable * (c.args.length + c.vars.length)
    | none => s.pcbActual.stackPointer
  let pcb := { s.pcbActual with stack := stack, stackPointer := stackPointer }
  match stack, contexto with
  | _ :: _, some c => some ({ s with pcbActual := { pcb with PC := c.retPos } }, [])
  | _, _ => (finalizarPor r pcb .OP_CPU_PROGRAM_END).map fun sent =>
      ({ s with pcbActual := pcb, finPrograma := true }, sent)

/-- `retornar`. -/
def retornar (config : Config) (r : Residue) (s : State) (mem : Memoria.ServerState)
    (retorno : Int) : Option (State × Memoria.ServerState × List Packet) :=
  match s.pcbActual.stack.getLast? with
  | some registroActual =>
      let offsetAbsoluto := config.puntero
        (registroActual.retVar.page * config.tamanioPagina + registroActual.retVar.offset)
      let m := asignar config r s mem offsetAbsoluto retorno
      (finalizar r m.1).map fun f => (f.1, m.2, f.2)
  | none => none

/-- The control block followed by a letter and a name, which is how the
    primitives of the kernel begin. -/
def syscallPackets (r : Residue) (pcb : Pcb) (opcode : Opcode) (letra : UInt8)
    (nombre : List UInt8) : Option (List Packet) :=
  match pcbPacket r pcb opcode with
  | some packet =>
      if bufferCapacity < 1 + (cstr nombre).length then none
      else some [packet, { header := packet.header, payload := letra :: cstr nombre }]
  | none => none

/-- `asignarValorCompartida`. -/
def asignarValorCompartida (r : Residue) (pcb : Pcb) (nombre : List UInt8) (valor : Int) :
    Option (List Packet) :=
  (syscallPackets r pcb .OP_CPU_SHARED_VAR 97 nombre).map fun sent =>
    sent ++ [packed r (protocolHeader .CPU .OP_CPU_SHARED_VAR) [.h valor]]

/-- `obtenerValorCompartida`, up to the reply. -/
def obtenerValorCompartida (r : Residue) (pcb : Pcb) (nombre : List UInt8) : Option (List Packet) :=
  syscallPackets r pcb .OP_CPU_SHARED_VAR 118 nombre

/-- `signalAnsisop`. -/
def signalAnsisop (r : Residue) (pcb : Pcb) (identificador : List UInt8) : Option (List Packet) :=
  syscallPackets r pcb .OP_CPU_SEMAPHORE 115 identificador

/-- `wait`. -/
def wait (r : Residue) (pcb : Pcb) (identificador : List UInt8) : Option (List Packet) :=
  syscallPackets r pcb .OP_CPU_SEMAPHORE 119 identificador

/-- `ejecutarPrograma`, up to its loop. -/
def ejecutarPrograma (s : State) : State :=
  { s with procesoBloqueado := false, control := .bucle 1 }

/-- `verificarTerminarEjecucion`, and whether it returns `-1`. -/
def verificarTerminarEjecucion (s : State) : State × Bool :=
  if s.huboStackOver then ({ s with huboStackOver := false }, true)
  else if s.finPrograma then ({ s with finPrograma := false }, true)
  else (s, false)

/-- `recibirMensajesDeKernel` on a packet. -/
def recibirMensajesDeKernel (r : Residue) (s : State) (packet : Packet) : State :=
  match packet.header.opcode with
  | .OP_KE_SEND_PCB =>
      ejecutarPrograma { s with pcbActual := serialUnpackPcb (packet.pointer r.reply) }
  | .OP_KE_SEND_QUANTUM => ejecutarPrograma s
  | _ => s

/-- The test of the loop of `ejecutarPrograma`. -/
def seguirEjecutando (pcb : Pcb) (i : Int) : Bool := i ≤ pcb.quantum || pcb.quantum == 0

/-- The start of a round of the loop: the next line is fetched and handed to the
    parser. -/
def buscarLinea (config : Config) (r : Residue) (s : State) (mem : Memoria.ServerState) (i : Int) :
    Option (State × Memoria.ServerState) :=
  match instruccionActual s.pcbActual with
  | none => none
  | some instruccion =>
      let packet := pedirProximaInstruccionAMemoria config.tamanioPagina r s.pcbActual instruccion
      match Memoria.solBytPag mem s.conn r.server packet with
      | none => none
      | some (mem, conn, reply) => match instruccionLimpia r instruccion.offset reply with
        | none => none
        | some texto =>
            let linea := config.parser.analizadorLinea texto
            some ({ s with conn := conn, control := .linea i linea }, mem)

/-- A step inside a line: the next call of the parser, or what follows once it has
    returned. -/
def stepLinea (config : Config) (r : Residue) (s : State) (mem : Memoria.ServerState)
    (inbox : List Packet) (i : Int) : Linea → Option Result
  | .fin =>
      let v := verificarTerminarEjecucion s
      if v.2 then
        some { state := { v.1 with control := .espera }, memoria := mem, inbox := inbox, sent := [] }
      else
        let pcb := { v.1.pcbActual with PC := v.1.pcbActual.PC + 1 }
        some { state := { v.1 with pcbActual := pcb, control := .bucle (i + 1) },
               memoria := mem, inbox := inbox, sent := [] }
  | .definirVariable identificador sigue =>
      let d := definirVariable config r s identificador
      some { state := { d.1 with control := .linea i (sigue d.2) }, memoria := mem, inbox := inbox,
             sent := [] }
  | .obtenerPosicionVariable identificador sigue =>
      (obtenerPosicionVariable config s identificador).map fun posicion =>
        { state := { s with control := .linea i (sigue posicion) }, memoria := mem, inbox := inbox,
          sent := [] }
  | .dereferenciar direccion sigue =>
      (dereferenciar config r s mem direccion).map fun d =>
        { state := { d.1 with control := .linea i (sigue d.2.2) }, memoria := d.2.1,
          inbox := inbox, sent := [] }
  | .asignar direccion valor sigue =>
      let a := asignar config r s mem direccion valor
      some { state := { a.1 with control := .linea i sigue }, memoria := a.2, inbox := inbox,
             sent := [] }
  | .obtenerValorCompartida nombre sigue =>
      (obtenerValorCompartida r s.pcbActual nombre).map fun sent =>
        { state := { s with control := .compartida i sigue }, memoria := mem, inbox := inbox,
          sent := sent }
  | .asignarValorCompartida nombre valor sigue =>
      (asignarValorCompartida r s.pcbActual nombre valor).map fun sent =>
        { state := { s with control := .linea i (sigue valor) }, memoria := mem, inbox := inbox,
          sent := sent }
  | .irAlLabel etiqueta sigue =>
      let pcb := irAlLabel config s.pcbActual etiqueta
      some { state := { s with pcbActual := pcb, control := .linea i sigue }, memoria := mem,
             inbox := inbox, sent := [] }
  | .llamarConRetorno etiqueta dondeRetornar sigue =>
      let pcb := llamarConRetorno config s.pcbActual etiqueta dondeRetornar
      some { state := { s with pcbActual := pcb, control := .linea i sigue }, memoria := mem,
             inbox := inbox, sent := [] }
  | .llamarSinRetorno etiqueta sigue =>
      let pcb := llamarSinRetorno config s.pcbActual etiqueta
      some { state := { s with pcbActual := pcb, control := .linea i sigue }, memoria := mem,
             inbox := inbox, sent := [] }
  | .retornar retorno sigue =>
      (retornar config r s mem retorno).map fun f =>
        { state := { f.1 with control := .linea i sigue }, memoria := f.2.1, inbox := inbox,
          sent := f.2.2 }
  | .finalizar sigue =>
      (finalizar r s).map fun f =>
        { state := { f.1 with control := .linea i sigue }, memoria := mem, inbox := inbox,
          sent := f.2 }
  | .signal identificador sigue =>
      (signalAnsisop r s.pcbActual identificador).map fun sent =>
        { state := { s with control := .linea i sigue }, memoria := mem, inbox := inbox,
          sent := sent }
  | .wait identificador sigue =>
      (wait r s.pcbActual identificador).map fun sent =>
        { state := { s with control := .linea i sigue }, memoria := mem, inbox := inbox,
          sent := sent }

/-- One step of the process. -/
def step (config : Config) (r : Residue) (s : State) (mem : Memoria.ServerState)
    (inbox : List Packet) : Option Result :=
  match s.control with
  | .espera => match inbox with
    | [] => none
    | packet :: inbox =>
        some { state := recibirMensajesDeKernel r s packet, memoria := mem, inbox := inbox,
               sent := [] }
  | .bucle i =>
      if seguirEjecutando s.pcbActual i then
        (buscarLinea config r s mem i).map fun b =>
          { state := b.1, memoria := b.2, inbox := inbox, sent := [] }
      else if s.procesoBloqueado then
        some { state := { s with control := .espera }, memoria := mem, inbox := inbox, sent := [] }
      else
        (finalizarPor r s.pcbActual .OP_CPU_PROGRAM_END).map fun sent =>
          { state := { s with control := .espera }, memoria := mem, inbox := inbox, sent := sent }
  | .linea i linea => stepLinea config r s mem inbox i linea
  | .compartida i sigue => match inbox with
    | [] => none
    | packet :: inbox =>
        let valor := unpacki16 (packet.pointer r.reply) 0
        some { state := { s with control := .linea i (sigue valor) }, memoria := mem,
               inbox := inbox, sent := [] }

end Cpu

end Esther
