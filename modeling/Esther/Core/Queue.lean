import Esther.Core.Mlist

/-!
# Queues and Stacks

`queue.c` and `stack.c`: the two adapters of the lists of the common library.

Both take elements from the end of their list. A queue puts them at the start and a stack
at the end.

## Main definitions

* `QueueT`, `StackT`: `queue_t` and `stack_t`.
* `queuePush`, `queuePop`, `queueNext`: The functions of a queue.
* `stackPush`, `stackPop`, `stackTop`: Those of a stack.
-/

namespace Esther

namespace Common

variable {α : Type}

/-- `queue_t`. -/
structure QueueT where
  content : Mlist

/-- `queue_create`. -/
def queueCreate : QueueT := { content := mlistCreate }

/-- `queue_empty`. -/
def queueEmpty (queue : QueueT) : Bool := mlistEmpty queue.content

/-- `queue_length`. -/
def queueLength (queue : QueueT) : Int := mlistLength queue.content

/-- `queue_next`. -/
def queueNext (queue : QueueT) (m : Memory α) : Option (Option α) := mlistLast queue.content m

/-- `queue_push`. -/
def queuePush (malloc : Nat → Finmap (fun _ : Nat => Node α) → Nat) (queue : QueueT)
    (element : Option α) (m : Memory α) : Option (QueueT × Memory α) := do
  let (content, m) ← mlistInsert malloc queue.content 0 element m
  some ({ queue with content := content }, m)

/-- `queue_pop`. -/
def queuePop (queue : QueueT) (m : Memory α) : Option (Option α × QueueT × Memory α) := do
  let (element, content, m) ← mlistPop queue.content (queueLength queue - 1) m
  some (element, { queue with content := content }, m)

/-- `stack_t`. -/
structure StackT where
  content : Mlist

/-- `stack_create`. -/
def stackCreate : StackT := { content := mlistCreate }

/-- `stack_empty`. -/
def stackEmpty (stack : StackT) : Bool := mlistEmpty stack.content

/-- `stack_length`. -/
def stackLength (stack : StackT) : Int := mlistLength stack.content

/-- `stack_top`. -/
def stackTop (stack : StackT) (m : Memory α) : Option (Option α) := mlistLast stack.content m

/-- `stack_push`. -/
def stackPush (malloc : Nat → Finmap (fun _ : Nat => Node α) → Nat) (stack : StackT)
    (element : Option α) (m : Memory α) : Option (StackT × Memory α) := do
  let (content, m) ← mlistAppend malloc stack.content element m
  some ({ stack with content := content }, m)

/-- `stack_pop`. -/
def stackPop (stack : StackT) (m : Memory α) : Option (Option α × StackT × Memory α) := do
  let (element, content, m) ← mlistPop stack.content (stackLength stack - 1) m
  some (element, { stack with content := content }, m)

end Common

end Esther
