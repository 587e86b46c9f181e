import Esther.Core.Parser
import Esther.Core.Protocol

/-!
# The Kernel

The kernel process: its five queues of control blocks, the programs' code, the
clients, the semaphores and the shared variables, with every function that
changes them.

The lists hold control blocks by value. Some blocks are in a list still when they
are freed: a signal frees the block it has just put in `pcb_ready`, if it finds
that block in `pcb_block`, and so are the requests in `solicitudes_sem` of the
processes that `pcb_remove` or a signal takes out of `pcb_block`. What is read there
is nothing the program determines. It is the field `freed` of `Residue`, together with
the other things a handler reads without having written them. The reading is that of
the step that frees the block, and it is the same for the rest of the run, although
`malloc` may hand the block out again and what it holds may change. Freeing it again, which
the next message of a process that a signal has woken does, is taken to change nothing.

Two blocks of one process are not told apart: if there are two in `pcb_block`, a signal
that takes out a request of that process is taken to find its own block first. A block
that is in two lists at once and is freed in one of them stays in the other as it was. This
happens to a process that is killed while it waits and woken by a signal later: its block
is in `pcb_exit`, gets into `pcb_exec` and is freed there. What is proved about exit codes
keeps account of it.

A step for which the C program has no defined behaviour (an index past the end of
an array, a buffer that is too small, a null pointer, a counter that leaves the
range of an `int`) returns `none`.

What is sent to a descriptor is appended to `wire` there. The answer of the memory
server to a request for pages is an argument; the other answers are received and
not used.

## Main definitions

* `Config`, `Client`, `State`: The kernel's data.
* `crearPcbProceso`, `gestionDatosNewPcb`: New programs.
* `planificacion`: The scheduling round.
* `endProgram`: Ending a program.
* `semSignal`: A signal, and what it removes from `pcb_block`.
* `gestionSyscall`: A message of a CPU.
* `destroyConsole`, `terminalKill`: The consoles and the terminal.
-/

namespace Esther

namespace Kernel

open Cells Serial

/-- The states of a process, `enum {NEW, READY, EXEC, BLOCK, EXIT}`. -/
inductive Status
  | NEW
  | READY
  | EXEC
  | BLOCK
  | EXIT
deriving DecidableEq, Repr

/-- `EXIT`, as the number stored in a control block. -/
def exitStatus : Int := 4

/-- `EXIT_SUCCESSFUL` and `EXIT_CONSOLE_KILLED` of `exitcode_t`. -/
def exitSuccessful : Int := 0

def exitConsoleKilled : Int := -6

/-- The entries of `t_kernel` the functions below read. The page size is what
    the memory server announced. -/
structure Config where
  quantum : Int
  stackSize : Int
  pageSize : Int
  semIds : List (List UInt8)
  sharedVars : List (List UInt8)
  pageSizePos : 0 < pageSize

/-- `t_client`; `pids` is used for consoles only. -/
structure Client where
  clientID : Int
  process : ProcessT
  pids : List Int
deriving DecidableEq, Repr

/-- The global variables of the kernel. -/
structure State where
  generatorPid : Int
  multipgLevel : Int
  memfd : Int
  pcbNew : List Pcb
  pcbReady : List Pcb
  pcbExec : List Pcb
  pcbBlock : List Pcb
  pcbExit : List Pcb
  codesMs : List (List UInt8)
  consolasConectadas : List Client
  cpuConectadas : List Client
  cpuExecuting : List Client
  semAnsisop : List Int
  solicitudesSem : List (List Pcb)
  sharedValues : List Int
  wire : Int → List Packet

/-- What a handler reads without having written it: the bytes after a received
    payload, by the number of the packet in the handler, the contents of its
    local buffer, and what is read from then on of a control block that it frees. -/
structure Residue where
  payload : Nat → Buf
  buffer : Buf
  freed : Pcb → Pcb

/-- `protocol_packet_send`. -/
def State.send (k : State) (fd : Int) (packet : Packet) : State :=
  { k with wire := Function.update k.wire fd (k.wire fd ++ [packet]) }

/-- A packet whose payload is packed into the local buffer. -/
def packed (r : Residue) (header : Header) (args : List Arg) : Packet :=
  let p := serialPack r.buffer 0 args
  protocolPacket header p.1 p.2

/-- `pcb_equals`. -/
def pcbEquals (pcb1 pcb2 : Pcb) : Bool := pcb1.idProcess == pcb2.idProcess

/-- `mlist_remove(list, condition, free)` for the blocks of one process. -/
def removePid (pid : Int) (list : List Pcb) : List Pcb :=
  list.filter fun pcb => !(pid == pcb.idProcess)

/-- `status_queue`. -/
def State.statusQueue (k : State) : Status → List Pcb
  | .NEW => k.pcbNew
  | .READY => k.pcbReady
  | .EXEC => k.pcbExec
  | .BLOCK => k.pcbBlock
  | .EXIT => k.pcbExit

/-- The order in which `pcb_by_id` and `pcb_status` go through the queues. -/
def statuses : List Status := [.NEW, .READY, .EXEC, .BLOCK, .EXIT]

/-- `pcb_by_id`. -/
def State.pcbById (k : State) (pid : Int) : Option Pcb :=
  statuses.findSome? fun status => (k.statusQueue status).find? fun elem => elem.idProcess == pid

/-- `pcb_status`. -/
def State.pcbStatus (k : State) (pcb : Pcb) : Option Status :=
  statuses.find? fun status => (k.statusQueue status).any fun elem => pcbEquals pcb elem

/-- `pcb_remove`. A request the process has pending is one of the blocks freed. -/
def State.pcbRemove (k : State) (r : Residue) (pcb : Pcb) : State :=
  { k with
    solicitudesSem := k.solicitudesSem.map fun queue => queue.map fun aux =>
      if pcbEquals pcb aux then r.freed aux else aux
    pcbNew := removePid pcb.idProcess k.pcbNew
    pcbReady := removePid pcb.idProcess k.pcbReady
    pcbExec := removePid pcb.idProcess k.pcbExec
    pcbBlock := removePid pcb.idProcess k.pcbBlock
    pcbExit := removePid pcb.idProcess k.pcbExit }

/-- `end_program`. -/
def State.endProgram (k : State) (r : Residue) (pcb : Pcb) (code : Int) : State :=
  let pcb := { pcb with exitCode := code }
  let k := k.pcbRemove r pcb
  let k := { k with pcbExit := k.pcbExit ++ [pcb] }
  let header := { protocolHeader .KERNEL .OP_KE_PROGRAM_END with usrpid := byte pcb.idProcess }
  let packet := packed r header [.h pcb.exitCode]
  let k := match k.consolasConectadas.find? fun client =>
      client.pids.any fun pid => pid == pcb.idProcess with
    | some console => k.send console.clientID packet
    | none => k
  k.send k.memfd { packet with header := { packet.header with opcode := .OP_ME_FINPRO } }

/-- `restoreCPU`. -/
def State.restoreCPU (k : State) (cpu : Client) : State :=
  { k with
    cpuExecuting := k.cpuExecuting.filter fun other => !(other.clientID == cpu.clientID)
    cpuConectadas := k.cpuConectadas ++ [cpu] }

/-- A name copied byte by byte into the array `tag` of `LINE_SIZE` characters,
    with the position after its terminator. -/
def leerTag (etiquetas : Buf) : Nat → Int → Option (List UInt8 × Int)
  | 0, _ => none
  | room + 1, q =>
      if etiquetas q = 0 then some ([], q + 1)
      else match leerTag etiquetas room (q + 1) with
        | some (name, q') => some (etiquetas q :: name, q')
        | none => none

/-- The loop of `crear_pcb_proceso` over the labels. Each name is followed by
    `sizeof(t_puntero_instruccion)` bytes that are skipped. -/
def leerTags (parser : Parser) (program : MetadataProgram) : Nat → Int → Option (List ProgramTag)
  | 0, _ => some []
  | n + 1, q => match leerTag program.etiquetas parser.lineSize q with
    | some (tag, q') => match leerTags parser program n (q' + 4) with
      | some rest =>
          some ({ name := tag,
                  PC := parser.metadataBuscarEtiqueta tag program.etiquetas
                    program.etiquetasSize } :: rest)
      | none => none
    | none => none

/-- `crear_pcb_proceso`. -/
def crearPcbProceso (parser : Parser) (config : Config) (k : State) (program : MetadataProgram) :
    Option (State × Pcb) :=
  let generatorPid := k.generatorPid + 1
  let tags := program.cantidadDeEtiquetas + program.cantidadDeFunciones
  if !fitsInt generatorPid then none
  else match leerTags parser program tags.toNat 0 with
    | some indexTag =>
        some ({ k with generatorPid := generatorPid },
          { idProcess := generatorPid
            PC := program.instruccionInicio
            quantum := config.quantum
            status := 0
            pagesCode := 0
            indexCode := program.instruccionesSerializado
            instructions := program.instruccionesSize
            indexTag := indexTag
            tags := tags
            stack := []
            stackPointer := 0
            exitCode := 0 })
    | none => none

/-- `gestion_datos_newPcb`, for the console at a descriptor. -/
def gestionDatosNewPcb (parser : Parser) (config : Config) (k : State) (r : Residue)
    (program : Packet) (console : Int) : Option State :=
  let dataProgram := parser.metadataDesdeLiteral (program.pointer (r.payload 0))
  match crearPcbProceso parser config k dataProgram with
  | some (k, pcb) =>
      let k := { k with codesMs := k.codesMs ++ [program.payload] }
      let header := { protocolHeader .KERNEL .OP_KE_SEND_PID with usrpid := byte pcb.idProcess }
      let k := k.send console (protocolPacket header r.buffer 0)
      some { k with
        consolasConectadas := k.consolasConectadas.map fun client =>
          if client.clientID == console then { client with pids := client.pids ++ [pcb.idProcess] }
          else client
        pcbNew := k.pcbNew ++ [pcb] }
  | none => none

/-- The pages a program is given for its code. -/
def codePages (config : Config) (size : Nat) : Int :=
  size / config.pageSize + if (size : Int) % config.pageSize ≠ 0 then 1 else 0

/-- The `int pages` of `planificacion`. -/
def requestedPages (config : Config) (size : Nat) : Int :=
  toInt (codePages config size + config.stackSize)

/-- The `size` of the page `pag` of the code. -/
def pageBytes (config : Config) (size : Nat) (pagesCode : Int) (pag : Int) : Int :=
  if pag < pagesCode - 1 then config.pageSize else size % config.pageSize

/-- The two packets that store one page of the code, read from `tam` on. The
    bytes go through the local buffer, which has to hold them. -/
def storePage (r : Residue) (pcb : Pcb) (code : List UInt8) (pag size tam : Int) :
    Option (Packet × Packet) :=
  let header := { protocolHeader .KERNEL .OP_ME_ALMBYTPAG with usrpid := byte pcb.idProcess }
  if (bufferCapacity : Int) < size then none
  else
    some (packed r header [.h pag, .h 0, .h size],
      { header := header, payload := (code.drop tam.toNat).take size.toNat })

/-- The loop of `planificacion` over the pages of the code. -/
def storeCode (config : Config) (r : Residue) (pcb : Pcb) (code : List UInt8) (k : State) :
    Nat → Int → Int → Option State
  | 0, _, _ => some k
  | n + 1, pag, tam =>
      let size := pageBytes config code.length pcb.pagesCode pag
      match storePage r pcb code pag size tam with
      | some (packet, data) =>
          storeCode config r pcb code ((k.send k.memfd packet).send k.memfd data) n (pag + 1)
            (tam + size)
      | none => none

/-- The two packets that send the stack index to memory. -/
def storeStack (r : Residue) (pcb : Pcb) (k : State) : Option State :=
  let header := { protocolHeader .KERNEL .OP_ME_ALMBYTPAG with usrpid := byte pcb.idProcess }
  let s := serialPackStack pcb.stack r.buffer 0
  if bufferCapacity < stackBytes pcb.stack then none
  else
    some ((k.send k.memfd (packed r header [.h pcb.stackPointer, .h 0, .h pcb.stack.length])).send
      k.memfd (protocolPacket header s.1 s.2))

/-- The first half of `planificacion`: at most one program enters the system.
    `res` is what the memory server answers. -/
def admitir (config : Config) (k : State) (r : Residue) (res : Int) : Option State :=
  let progsInSystem : Int := k.pcbReady.length + k.pcbExec.length + k.pcbBlock.length
  match k.pcbNew with
  | [] => some k
  | pcb :: pcbNew =>
      if progsInSystem < k.multipgLevel then
        match k.codesMs with
        | [] => none
        | code :: codesMs =>
            let pages := requestedPages config code.length
            let k := { k with pcbNew := pcbNew, codesMs := codesMs }
            let header :=
              { protocolHeader .KERNEL .OP_ME_INIPRO with usrpid := byte pcb.idProcess }
            let k := k.send k.memfd (packed r header [.h pages])
            if res ≠ 0 then
              let pcb := { pcb with pagesCode := pages - config.stackSize }
              let k := { k with pcbReady := k.pcbReady ++ [pcb] }
              match storeCode config r pcb code k pcb.pagesCode.toNat 0 0 with
              | some k => storeStack r pcb k
              | none => none
            else
              some { k with pcbExit := k.pcbExit ++ [{ pcb with exitCode := -1 }] }
      else some k

/-- A control block sent to a CPU. -/
def sendPcb (r : Residue) (pcb : Pcb) : Option Packet :=
  let s := serialPackPcb pcb r.buffer
  if bufferCapacity < pcbBytes pcb then none
  else some (protocolPacket (protocolHeader .KERNEL .OP_KE_SEND_PCB) s.1 s.2)

/-- The second half of `planificacion`: ready processes go to free CPUs. -/
def despachar (r : Residue) (k : State) : List Pcb → List Client → Option State
  | pcbToExec :: pcbReady, cpu :: cpuConectadas => match sendPcb r pcbToExec with
    | some packet =>
        let k := { k with pcbReady := pcbReady, cpuConectadas := cpuConectadas }
        let k := k.send cpu.clientID packet
        despachar r
          { k with pcbExec := k.pcbExec ++ [pcbToExec], cpuExecuting := k.cpuExecuting ++ [cpu] }
          pcbReady cpuConectadas
    | none => none
  | _, _ => some k

/-- `planificacion`. -/
def planificacion (config : Config) (k : State) (r : Residue) (res : Int) : Option State :=
  match admitir config k r res with
  | some k => despachar r k k.pcbReady k.cpuConectadas
  | none => none

/-- `strcmp(name, p) == 0`. -/
def strcmpEq (name : List UInt8) (p : Buf) : Bool :=
  slice p 0 (cstr name).length == cstr name && p (cstr name).length == 0

/-- `memcpy(buffer, payload+1, msgsize)` for the name in a message. It starts
    one byte late and ends one byte late. -/
def nameBuffer (r : Residue) (packet : Packet) (heap : Buf) : Buf :=
  copy r.buffer (packet.pointer heap) 0 1 packet.msgsize

/-- The index of the semaphore a message names, past the last one if it names
    none. -/
def semaphoreIndex (config : Config) (r : Residue) (packetSem : Packet) : Nat :=
  config.semIds.findIdx fun name => strcmpEq name (nameBuffer r packetSem (r.payload 1))

/-- A wait on semaphore `i`. -/
def State.semWait (k : State) (pcb : Pcb) (i : Nat) : Option State :=
  match k.semAnsisop[i]?, k.solicitudesSem[i]? with
  | some value, some queue =>
      let k := { k with semAnsisop := k.semAnsisop.set i (value - 1) }
      if !fitsInt (value - 1) then none
      else if value - 1 > 0 then some { k with pcbReady := k.pcbReady ++ [pcb] }
      else
        some { k with
          pcbBlock := k.pcbBlock ++ [pcb]
          solicitudesSem := k.solicitudesSem.set i (queue ++ [pcb]) }
  | _, _ => none

/-- The blocks behind the first one that is equal to `pcb`. -/
def blocksAfter (pcb : Pcb) : List Pcb → List Pcb
  | [] => []
  | elem :: list => if pcbEquals pcb elem then list else blocksAfter pcb list

/-- What is read of `pcbReady` behind the first block that a signal finds in `pcb_block`. That
    block is `pcbReady`, and has been freed. If there was no request before the caller's own,
    `pcbReady` is the last block of all, and is freed last. -/
def readBehind (r : Residue) (queue : List Pcb) (pcbReady : Pcb) : Pcb :=
  if queue.isEmpty then pcbReady else r.freed pcbReady

/-- `mlist_remove(pcb_block, getPcb, free)` of a signal. The blocks behind the first one it
    finds are compared with `leido`. -/
def removeReady (pcbReady leido : Pcb) : List Pcb → List Pcb
  | [] => []
  | pcbBlock :: list =>
      if pcbEquals pcbReady pcbBlock then removePid leido.idProcess list
      else pcbBlock :: removeReady pcbReady leido list

/-- A request, after that. The blocks that have been removed behind the first one have been
    freed as well. -/
def requestLeft (r : Residue) (pcbReady leido : Pcb) (pcbBlock : List Pcb) (aux : Pcb) : Pcb :=
  if pcbEquals leido aux && (blocksAfter pcbReady pcbBlock).any (pcbEquals leido) then r.freed aux
  else aux

/-- A signal on semaphore `i`. The request of the caller itself is queued before
    the oldest one is taken out, so there always is one. The block made ready is
    the one `mlist_remove` frees, if it finds it in `pcb_block`. -/
def State.semSignal (k : State) (r : Residue) (pcb : Pcb) (i : Nat) : Option State :=
  match k.semAnsisop[i]?, k.solicitudesSem[i]? with
  | some value, some queue =>
      let pcbBlock := k.pcbBlock ++ [pcb]
      if !fitsInt (value + 1) then none
      else match queue ++ [pcb] with
      | [] => none
      | pcbReady :: rest =>
          let freed := pcbBlock.any fun pcbBlock => pcbEquals pcbReady pcbBlock
          let leido := readBehind r queue pcbReady
          some { k with
            semAnsisop := k.semAnsisop.set i (value + 1)
            pcbReady := k.pcbReady ++ [if freed then r.freed pcbReady else pcbReady]
            pcbBlock := removeReady pcbReady leido pcbBlock
            solicitudesSem := (k.solicitudesSem.set i rest).map fun queue =>
              queue.map (requestLeft r pcbReady leido pcbBlock) }
  | _, _ => none

/-- The index of the shared variable a message names, past the last one if it
    names none. -/
def sharedIndex (config : Config) (r : Residue) (packetSharedVar : Packet) : Nat :=
  let nombre := cstr (slice (nameBuffer r packetSharedVar (r.payload 1)) 0
    (packetSharedVar.msgsize - 1))
  config.sharedVars.findIdx fun name => cstr name == nombre

/-- `gestion_syscall` for a packet of a CPU and the packets that follow it, of
    which it reads as many as it needs. What is left of them is returned. The block
    that is freed in `pcb_exec` may be in `pcb_exit` too; there it stays as it was. -/
def gestionSyscall (config : Config) (k : State) (r : Residue) (cpuSyscall : Packet) (cpu : Client)
    (siguientes : List Packet) : Option (State × List Packet) :=
  let pcb := serialUnpackPcb (cpuSyscall.pointer (r.payload 0))
  let k := { k with pcbExec := removePid pcb.idProcess k.pcbExec }
  match cpuSyscall.header.opcode with
  | .OP_CPU_PROGRAM_END => some ((k.endProgram r pcb exitSuccessful).restoreCPU cpu, siguientes)
  | .OP_CPU_SEMAPHORE => match siguientes with
    | [] => none
    | packetSem :: siguientes =>
        if bufferCapacity < packetSem.msgsize then none
        else
          let i := semaphoreIndex config r packetSem
          let k := if packetSem.pointer (r.payload 1) 0 = 119 then k.semWait pcb i
            else k.semSignal r pcb i
          match k with
          | some k => some (k.restoreCPU cpu, siguientes)
          | none => none
  | .OP_CPU_SHARED_VAR => match siguientes with
    | [] => none
    | packetSharedVar :: siguientes =>
        if bufferCapacity < packetSharedVar.msgsize then none
        else
          let i := sharedIndex config r packetSharedVar
          match k.sharedValues[i]? with
          | none => none
          | some value =>
              if packetSharedVar.pointer (r.payload 1) 0 = 118 then
                let packet := packed r (protocolHeader .KERNEL .OP_KE_SEND_SHAREDVALUE) [.h value]
                some ((k.send cpu.clientID packet).restoreCPU cpu, siguientes)
              else match siguientes with
                | [] => none
                | packetValue :: siguientes =>
                    let value := unpacki16 (packetValue.pointer (r.payload 2)) 0
                    some ({ k with sharedValues := k.sharedValues.set i value }.restoreCPU cpu,
                      siguientes)
  | _ => some (k, siguientes)

/-- The loop of `destroy_console` over the programs of the console. -/
def endConsolePrograms (r : Residue) (k : State) : List Int → State
  | [] => k
  | pid :: pids => match k.pcbById pid with
    | some pcb =>
        if k.pcbStatus pcb = some .EXEC then endConsolePrograms r k pids
        else endConsolePrograms r (k.endProgram r pcb exitConsoleKilled) pids
    | none => endConsolePrograms r k pids

/-- `destroy_console`. -/
def destroyConsole (k : State) (r : Residue) (client : Client) : State :=
  endConsolePrograms r
    { k with
      consolasConectadas := k.consolasConectadas.filter fun elem =>
        !(elem.clientID == client.clientID) }
    client.pids

/-- One of the three loops of `kill`: the first block of the process leaves the
    queue for `pcb_exit`. -/
def killIn (pid : Int) (queue : List Pcb) : List Pcb × List Pcb :=
  match queue.find? fun aux => aux.idProcess == pid with
  | some aux =>
      (queue.eraseP fun aux => aux.idProcess == pid,
        [{ aux with exitCode := -2, status := exitStatus }])
  | none => (queue, [])

/-- One round of the `while` of `kill`. The round is repeated until it finds the
    process; a request the process has pending is the same block. -/
def terminalKill (k : State) (pid : Int) : State :=
  let new := killIn pid k.pcbNew
  let block := killIn pid k.pcbBlock
  let ready := killIn pid k.pcbReady
  { k with
    pcbNew := new.1
    pcbBlock := block.1
    pcbReady := ready.1
    pcbExit := k.pcbExit ++ new.2 ++ block.2 ++ ready.2
    solicitudesSem := if block.2 = [] then k.solicitudesSem
      else k.solicitudesSem.map fun queue => queue.map fun aux =>
        if aux.idProcess == pid then { aux with exitCode := -2, status := exitStatus } else aux }

end Kernel

end Esther
