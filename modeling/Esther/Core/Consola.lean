import Esther.Core.Protocol

/-!
# The Console

The console process and its connection to the kernel.

The programs of a console are in the list `console.programs`, in the order in which they
were started. Each has a thread, `program_handler`, that sends its text to the kernel and
waits until the program ends. Another thread, `message_receiver`, takes what the kernel
sends and finds the program it is about: the last of the list, if the message is a number
for a new program, and otherwise the first with the number in the message. It does not
check whether there is one.

A function that dereferences a null pointer has no result.

The kernel is here what it is for one console. It reads the packets of the console in
order, gives each new program the next number, of which the console is told the low byte,
and reports the end of a program it has created at most once. Programs of other consoles
may take numbers in between.

## Main definitions

* `Program`, `State`: `program_t` and `console_t`.
* `State.startProgramThread`, `State.killProgram`: The commands `run` and `kill`.
* `State.messageReceiver`: A message of the kernel.
* `Red`, `Evento`, `Red.step`: The console, the kernel, and what may happen.
-/

namespace Esther

namespace Consola

open Cells Serial

/-- `enum program_status`. -/
inductive ProgramStatus
  | PROGRAM_ACTIVE
  | PROGRAM_ENDED
  | PROGRAM_KILLED
deriving DecidableEq, Repr

/-- `program_t`, with a number of its own in place of its address. The exit code is not
    initialised. -/
structure Program where
  id : Nat
  pid : Int
  status : ProgramStatus
  exitcode : Option Int
deriving DecidableEq, Repr

/-- `console_t`: the programs, the message to be printed, and what has been sent to the
    kernel. -/
structure State where
  active : Bool
  programs : List Program
  message : List UInt8
  allocated : Nat
  enviados : List Packet

/-- `MAX_PROGRAMS`. -/
def maxPrograms : Nat := 10

/-- `start_program_thread`. -/
def State.startProgramThread (c : State) : State :=
  if maxPrograms ≤ c.programs.length then c
  else
    { c with
      programs := c.programs ++
        [{ id := c.allocated, pid := -1, status := .PROGRAM_ACTIVE, exitcode := none }]
      allocated := c.allocated + 1 }

/-- The packet about a program that is removed. -/
def programKilled (pid : Int) : Packet :=
  { header := { protocolHeader .CONSOLE .OP_PROGRAM_KILLED with usrpid := byte pid }
    payload := [] }

/-- `notify_kernel`. -/
def State.notifyKernel (c : State) (pid : Int) : State :=
  { c with enviados := c.enviados ++ [programKilled pid] }

/-- `remove_program`: the kernel is told, the thread is awaited and the program freed. -/
def State.removeProgram (c : State) (id : Nat) : State :=
  let c := (c.programs.filter fun element => element.id == id).foldl
    (fun c program => c.notifyKernel program.pid) c
  { c with programs := c.programs.filter fun element => !(element.id == id) }

/-- `get_program`. -/
def State.getProgram (c : State) (pid : Int) : Option Program :=
  c.programs.find? fun element => element.pid == pid

/-- `kill_program`, for the number in its argument. -/
def State.killProgram (c : State) (pid : Int) : State :=
  if pid ≤ 0 then c
  else match c.getProgram pid with
    | none => c
    | some program => c.removeProgram program.id

/-- The text of a program, sent by its thread. -/
def State.sendProgram (c : State) (payload : List UInt8) : State :=
  { c with
    enviados := c.enviados ++
      [{ header := protocolHeader .CONSOLE .OP_NEW_PROGRAM, payload := payload }] }

/-- `terminate`. -/
def State.terminate (c : State) : State :=
  if !c.active then c
  else
    let c := c.programs.foldl (fun c program => c.notifyKernel program.pid) c
    { c with active := false, programs := [] }

/-- The first program with the number, changed where it is. -/
def cambiar (pid : Int) (f : Program → Program) : List Program → Option (List Program)
  | [] => none
  | element :: programs =>
      if element.pid == pid then some (f element :: programs)
      else match cambiar pid f programs with
        | some programs => some (element :: programs)
        | none => none

/-- A round of the loop of `message_receiver`. -/
def State.messageReceiver (c : State) (heap : Buf) (packet : Packet) : Option State :=
  match packet.header.opcode with
  | .OP_UNDEFINED => some c.terminate
  | .OP_KE_SEND_PID => match c.programs.getLast? with
    | some program =>
        some { c with programs := c.programs.dropLast ++ [{ program with pid := packet.usrpid }] }
    | none => none
  | .OP_KE_PROGRAM_END =>
      let exitcode := unpacki16 (packet.pointer heap) 0
      match cambiar packet.usrpid
          (fun program => { program with status := .PROGRAM_ENDED, exitcode := some exitcode })
          c.programs with
      | some programs => some { c with programs := programs }
      | none => none
  | _ => match c.getProgram packet.usrpid with
    | some _ => some { c with message := packet.payload }
    | none => none

/-- A console and the kernel: the threads that have not sent their programs, how many
    packets the kernel has read, its counter, the programs of this console that have not
    ended, and the messages under way. -/
structure Red where
  consola : State
  porEnviar : Nat
  leidos : Nat
  generatorPid : Int
  vivos : List Int
  canal : List Packet

/-- A console that has connected to the kernel. -/
def Red.init (generatorPid : Int) : Red :=
  { consola := { active := true, programs := [], message := [], allocated := 0, enviados := [] }
    porEnviar := 0
    leidos := 0
    generatorPid := generatorPid
    vivos := []
    canal := [] }

/-- A command, a program that is sent or cannot be read, the thread of one that has ended,
    a packet that reaches the kernel after some programs of other consoles, the end of a
    program, or a message that reaches the console. -/
inductive Evento
  | run
  | kill (pid : Int)
  | envia (payload : List UInt8)
  | falla (id : Nat)
  | termina (id : Nat)
  | atiende (otros : Nat)
  | fin (pid code : Int)
  | recibe (heap : Buf)

/-- The message with the number of a new program. -/
def sendPid (pid : Int) : Packet :=
  { header := { protocolHeader .KERNEL .OP_KE_SEND_PID with usrpid := byte pid }, payload := [] }

/-- The message about the end of a program. -/
def programEnd (pid code : Int) : Packet :=
  let p := serialPack (fun _ => 0) 0 [.h code]
  protocolPacket { protocolHeader .KERNEL .OP_KE_PROGRAM_END with usrpid := byte pid } p.1 p.2

/-- The kernel takes a packet of the console, and ignores it unless it is a program. -/
def Red.atiende (s : Red) (otros : Nat) (packet : Packet) : Option Red :=
  if packet.header.opcode = .OP_NEW_PROGRAM then
    let pid := s.generatorPid + otros + 1
    if fitsInt pid then
      some { s with
        leidos := s.leidos + 1
        generatorPid := pid
        vivos := s.vivos ++ [pid]
        canal := s.canal ++ [sendPid pid] }
    else none
  else some { s with leidos := s.leidos + 1 }

/-- What may happen. Which program `program_handler` takes for its own, if it cannot read
    the file, is left open. -/
def Red.step (s : Red) : Evento → Option Red
  | .run =>
      if maxPrograms ≤ s.consola.programs.length then some s
      else some { s with
        consola := s.consola.startProgramThread
        porEnviar := s.porEnviar + 1 }
  | .kill pid => some { s with consola := s.consola.killProgram pid }
  | .envia payload =>
      if s.porEnviar = 0 then none
      else some { s with
        consola := s.consola.sendProgram payload
        porEnviar := s.porEnviar - 1 }
  | .falla id =>
      if s.porEnviar = 0 then none
      else some { s with
        consola := s.consola.removeProgram id
        porEnviar := s.porEnviar - 1 }
  | .termina id => match s.consola.programs.find? fun program => program.id == id with
    | some program =>
        if program.status = .PROGRAM_ENDED then
          some { s with consola := s.consola.removeProgram id }
        else none
    | none => none
  | .atiende otros => match s.consola.enviados[s.leidos]? with
    | some packet => s.atiende otros packet
    | none => none
  | .fin pid code =>
      if pid ∈ s.vivos then
        some { s with
          vivos := s.vivos.erase pid
          canal := s.canal ++ [programEnd pid code] }
      else none
  | .recibe heap => match s.canal with
    | packet :: canal => match s.consola.messageReceiver heap packet with
      | some consola => some { s with consola := consola, canal := canal }
      | none => none
    | [] => none

end Consola

end Esther
