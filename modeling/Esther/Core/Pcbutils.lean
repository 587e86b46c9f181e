import Esther.Core.Kernel

/-!
# Control Blocks behind Pointers

`pcbutils.c` and `end_program` with the control blocks where they are: the queues hold
pointers, and a block is freed.

`Core.Kernel` has the blocks themselves in the queues, which does not tell two copies of
a block from one that is pointed to twice. Here an address has a block as long as it is
allocated, and a function that reads a block that is not, or frees it again, has no
result. The lists are those of `mlist.c`, as sequences.

`Colas` leaves out two kinds of states that the kernel can reach. A signal frees the block
it has put in `pcb_ready`, so that queue can point to a block that is not allocated. And a
process that is killed while it waits leaves its request, which a signal puts in
`pcb_ready`: its block is in that queue and in `pcb_exit`.

## Main definitions

* `Bloques`: The control blocks, and the queues.
* `Bloques.pcbDuplicate`, `Bloques.pcbRemove`: A copy, and the removal of all copies.
* `Bloques.endProgram`: `end_program`, up to its messages.
* `Colas`: Queues in which every pointer is to a block of its own.
-/

namespace Esther

namespace Kernel

/-- What is allocated, and the pointers in each of the queues. -/
structure Bloques where
  heap : Nat → Option Pcb
  queue : Status → List Nat

/-- `pcb_duplicate`, with the address `alloc` returns. -/
def Bloques.pcbDuplicate (m : Bloques) (dup pcb : Nat) : Option Bloques :=
  match m.heap pcb with
  | some block => some { m with heap := Function.update m.heap dup (some block) }
  | none => none

/-- `mlist_remove(list, condition, free)` in `pcb_remove`, over what is left of the list.
    The condition reads both blocks. -/
def mlistRemove (pcb : Nat) : (Nat → Option Pcb) → List Nat → Option ((Nat → Option Pcb) × List Nat)
  | heap, [] => some (heap, [])
  | heap, elem :: list => match heap pcb, heap elem with
    | some block, some other =>
        if pcbEquals block other then mlistRemove pcb (Function.update heap elem none) list
        else match mlistRemove pcb heap list with
          | some (heap, list) => some (heap, elem :: list)
          | none => none
    | _, _ => none

/-- The loop of `pcb_remove` over the queues. -/
def Bloques.pcbRemove (pcb : Nat) : Bloques → List Status → Option Bloques
  | m, [] => some m
  | m, status :: rest => match mlistRemove pcb m.heap (m.queue status) with
    | some (heap, list) =>
        pcbRemove pcb { heap := heap, queue := Function.update m.queue status list } rest
    | none => none

/-- `end_program`, until the block is in `pcb_exit`. The address of the copy is `dup`. -/
def Bloques.endProgram (m : Bloques) (dup pcb : Nat) (code : Int) : Option Bloques :=
  match m.heap pcb with
  | none => none
  | some block =>
      let m := { m with
        heap := Function.update m.heap pcb (some { block with exitCode := code }) }
      match m.pcbDuplicate dup pcb with
      | none => none
      | some m => match m.pcbRemove dup statuses with
        | none => none
        | some m =>
            some { m with queue := Function.update m.queue .EXIT (m.queue .EXIT ++ [dup]) }

/-- The blocks in a queue. -/
def Bloques.contents (m : Bloques) (status : Status) : List Pcb :=
  (m.queue status).filterMap m.heap

/-- Queues whose pointers are all to blocks that are allocated, each to one of its own. The
    states with a freed block in a queue, or with a block in two places, are not among them. -/
structure Colas extends Bloques where
  live : ∀ status, ∀ p ∈ queue status, (heap p).isSome
  nodup : (statuses.flatMap queue).Nodup

end Kernel

end Esther
