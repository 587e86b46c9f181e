import Esther.Core.Structures
import Esther.Lib.Chain
import Mathlib.Data.Finmap

/-!
# Lists

The doubly linked lists of the common library, on the cells they are made of.

A list is the address of its first node, that of its last, and a length. The nodes are in
the memory, with those of other lists. A pointer that is followed where there is no node,
because it is null or the node has been freed, has no result, and neither has a length
that is not an `int`.

An element is a pointer, null or to something the lists do not look at. What a function
that is given to a list does elsewhere, as a destroyer does, is done to a `world` of its
own.

The addresses of new nodes come from `malloc`, which is not part of the repository. It is
given how often it has been called and the nodes there are. The mutex of a list, which
is for threads, is left out.

## Main definitions

* `Node`, `Memory`, `Mlist`: `node_t`, the nodes in use, and `mlist_t`.
* `insertBefore`, `insertAfter`, `getNode`, `traverseNodes`, `removeNode`: The private
  functions, which do the work.
* `mlistAppend`, `mlistInsert`, `mlistPop`, `mlistRemove`, `mlistReplace`, `mlistClear`: The
  functions that change a list.
* `mlistGet`, `mlistFirst`, `mlistLast`, `mlistLength`, `mlistEmpty`: The functions that read one.
* `mlistIndex`, `mlistFind`, `mlistContains`, `mlistAny`, `mlistAll`, `mlistCount`: The
  functions that look for an element.
* `mlistCopy`, `mlistMap`, `mlistFilter`, `mlistReverse`: The functions that make one.
* `Listas`, `mlistExtend`: The function that takes two lists, which may be one.
* `Operacion`, `Estado.step`: What a program does with a list.
-/

namespace Esther

namespace Common

open Chain

variable {α ω σ : Type}

/-- `node_t`. An element is null or points to something. -/
abbrev Node (α : Type) := Cell Nat (Option α)

/-- The nodes in use, by address, and how often `malloc` has been called. -/
structure Memory (α : Type) where
  nodes : Finmap fun _ : Nat => Node α
  mallocs : Nat

/-- `mlist_t`. -/
structure Mlist where
  head : Option Nat
  tail : Option Nat
  length : Int
deriving DecidableEq, Repr

/-- The node at an address. -/
def Memory.heap (m : Memory α) (address : Nat) : Option (Node α) := m.nodes.lookup address

/-- What a pointer points to. -/
def Memory.node (m : Memory α) (node : Option Nat) : Option (Node α) := node.bind m.heap

/-- `free`. -/
def Memory.free (m : Memory α) (address : Nat) : Option (Memory α) :=
  match m.heap address with
  | some _ => some { m with nodes := m.nodes.erase address }
  | none => none

/-- An assignment to a member of the node a pointer points to. -/
def Memory.modify (m : Memory α) (node : Option Nat) (f : Node α → Node α) :
    Option (Memory α) := do
  let address ← node
  let cell ← m.heap address
  some { m with nodes := m.nodes.insert address (f cell) }

/-- An assignment to `node->prev`. -/
def Memory.setPrev (m : Memory α) (node prev : Option Nat) : Option (Memory α) :=
  m.modify node fun cell => { cell with prev := prev }

/-- An assignment to `node->next`. -/
def Memory.setNext (m : Memory α) (node next : Option Nat) : Option (Memory α) :=
  m.modify node fun cell => { cell with next := next }

/-- An assignment to `node->elem`. -/
def Memory.setElem (m : Memory α) (node : Option Nat) (elem : Option α) : Option (Memory α) :=
  m.modify node fun cell => { cell with elem := elem }

/-- An assignment that is made unless `node` is null. -/
def Memory.setPrevIf (m : Memory α) (node prev : Option Nat) : Option (Memory α) :=
  if node ≠ none then m.setPrev node prev else some m

def Memory.setNextIf (m : Memory α) (node next : Option Nat) : Option (Memory α) :=
  if node ≠ none then m.setNext node next else some m

/-- `list->length += n`. -/
def Mlist.addLength (list : Mlist) (n : Int) : Option Mlist :=
  if fitsInt (list.length + n) then some { list with length := list.length + n } else none

/-! ### Private functions -/

/-- `create_node`. -/
def createNode (malloc : Nat → Finmap (fun _ : Nat => Node α) → Nat) (element : Option α)
    (m : Memory α) : Nat × Memory α :=
  let address := malloc m.mallocs m.nodes
  (address, { nodes := m.nodes.insert address { prev := none, next := none, elem := element }
              mallocs := m.mallocs + 1 })

/-- `insert_before`. -/
def insertBefore (list : Mlist) (base : Option Nat) (new : Nat) (m : Memory α) :
    Option (Mlist × Memory α) :=
  if list.length = 0 then do
    let list ← { list with head := some new, tail := some new }.addLength 1
    some (list, m)
  else do
    let node ← m.node base
    let m ← m.setPrev (some new) node.prev
    let m ← m.setNext (some new) base
    let m ← m.setPrev base (some new)
    let node ← m.node (some new)
    match node.prev with
    | some prev =>
        let m ← m.setNext (some prev) (some new)
        let list ← list.addLength 1
        some (list, m)
    | none =>
        let list ← { list with head := some new }.addLength 1
        some (list, m)

/-- `insert_after`. -/
def insertAfter (list : Mlist) (base : Option Nat) (new : Nat) (m : Memory α) :
    Option (Mlist × Memory α) :=
  if list.length = 0 then do
    let list ← { list with head := some new, tail := some new }.addLength 1
    some (list, m)
  else do
    let node ← m.node base
    let m ← m.setNext (some new) node.next
    let m ← m.setPrev (some new) base
    let m ← m.setNext base (some new)
    let node ← m.node (some new)
    match node.next with
    | some next =>
        let m ← m.setPrev (some next) (some new)
        let list ← list.addLength 1
        some (list, m)
    | none =>
        let list ← { list with tail := some new }.addLength 1
        some (list, m)

/-- `get_node`: from the end that is nearer. -/
def getNode (list : Mlist) (index : Int) (m : Memory α) : Option (Option Nat) :=
  if index < 0 ∨ list.length ≤ index then some none
  else if index ≤ list.length / 2 then follow Cell.next m.heap index.toNat list.head
  else follow Cell.prev m.heap (list.length - (index + 1)).toNat list.tail

/-- A function that is called unless it is null. -/
def call {β : Type} (fn : Option (σ → β → Option σ)) (s : σ) (argument : β) : Option σ :=
  match fn with
  | some fn => fn s argument
  | none => some s

/-- A round of the loop of `traverse_nodes`, for a node that is not null. -/
def visit (nodeFn : Option (σ → Nat → Option σ)) (elemFn : Option (σ → Option α → Option σ))
    (cond : Option (Option α → Bool)) (address : Nat) (element : Option α) (s : σ) : Option σ :=
  if cond.all fun cond => cond element then do
    let s ← call elemFn s element
    call nodeFn s address
  else some s

/-- The loop of `traverse_nodes`. The functions that are called may change the memory, so
    the next node is found before they are. -/
def traverseLoop (memory : σ → Memory α) (nodeFn : Option (σ → Nat → Option σ))
    (elemFn : Option (σ → Option α → Option σ)) (cond : Option (Option α → Bool))
    (reversed : Bool) : Nat → Option Nat → σ → Option σ
  | _, none, s => some s
  | 0, some _, _ => none
  | fuel + 1, some address, s => do
      let node ← (memory s).heap address
      let next := if reversed then node.prev else node.next
      let s ← visit nodeFn elemFn cond address node.elem s
      traverseLoop memory nodeFn elemFn cond reversed fuel next s

/-- `traverse_nodes`, for as many rounds as the list has nodes. -/
def traverseNodes (memory : σ → Memory α) (list : Mlist) (nodeFn : Option (σ → Nat → Option σ))
    (elemFn : Option (σ → Option α → Option σ)) (cond : Option (Option α → Bool))
    (reversed : Bool) (s : σ) : Option σ :=
  traverseLoop memory nodeFn elemFn cond reversed list.length.toNat
    (if reversed then list.tail else list.head) s

/-- `remove_node`. -/
def removeNode (list : Mlist) (address : Nat) (m : Memory α) :
    Option (Option α × Mlist × Memory α) := do
  let node ← m.heap address
  let m ← m.setNextIf node.prev node.next
  let node ← m.heap address
  let m ← m.setPrevIf node.next node.prev
  let node ← m.heap address
  let list := if some address = list.head then { list with head := node.next } else list
  let list := if some address = list.tail then { list with tail := node.prev } else list
  let list ← list.addLength (-1)
  let m ← m.free address
  some (node.elem, list, m)

/-! ### Public functions -/

/-- `mlist_create`. -/
def mlistCreate : Mlist := { head := none, tail := none, length := 0 }

/-- `mlist_empty`. -/
def mlistEmpty (list : Mlist) : Bool := list.length == 0

/-- `mlist_length`. -/
def mlistLength (list : Mlist) : Int := list.length

/-- `mlist_first`. -/
def mlistFirst (list : Mlist) (m : Memory α) : Option (Option α) :=
  if list.length ≠ 0 then (m.node list.head).map fun node => node.elem else some none

/-- `mlist_last`. -/
def mlistLast (list : Mlist) (m : Memory α) : Option (Option α) :=
  if list.length ≠ 0 then (m.node list.tail).map fun node => node.elem else some none

/-- `get_elem`. -/
def getElem (node : Option Nat) (m : Memory α) : Option (Option α) :=
  if node ≠ none then (m.node node).map fun node => node.elem else some none

/-- `mlist_get`. -/
def mlistGet (list : Mlist) (index : Int) (m : Memory α) : Option (Option α) := do
  let node ← getNode list index m
  getElem node m

/-- The loop of `mlist_index` and `mlist_find`: the node it stops at, and how many it has
    passed. -/
def searchLoop (m : Memory α) (cond : Option α → Bool) :
    Nat → Option Nat → Nat → Option (Option Nat × Nat)
  | _, none, index => some (none, index)
  | 0, some _, _ => none
  | fuel + 1, some address, index => do
      let node ← m.heap address
      if cond node.elem then some (some address, index)
      else searchLoop m cond fuel node.next (index + 1)

/-- `mlist_index`. -/
def mlistIndex (list : Mlist) (cond : Option α → Bool) (m : Memory α) : Option Int := do
  let (_, index) ← searchLoop m cond list.length.toNat list.head 0
  some (if (index : Int) < list.length then index else -1)

/-- `mlist_find`. -/
def mlistFind (list : Mlist) (cond : Option α → Bool) (m : Memory α) : Option (Option α) := do
  let (node, _) ← searchLoop m cond list.length.toNat list.head 0
  getElem node m

/-- `mlist_contains`. -/
def mlistContains [DecidableEq α] (list : Mlist) (element : Option α) (m : Memory α) :
    Option Bool := do
  let index ← mlistIndex list (fun current => current == element) m
  some (index != -1)

/-- `mlist_any`. -/
def mlistAny (list : Mlist) (cond : Option α → Bool) (m : Memory α) : Option Bool := do
  let element ← mlistFind list cond m
  some element.isSome

/-- `mlist_all`. -/
def mlistAll (list : Mlist) (cond : Option α → Bool) (m : Memory α) : Option Bool := do
  let any ← mlistAny list (fun element => !cond element) m
  some !any

/-- `mlist_count`. -/
def mlistCount (list : Mlist) (cond : Option α → Bool) (m : Memory α) : Option Int :=
  traverseNodes (fun _ => m) list (some fun count _ => some (count + 1)) none (some cond) false 0

/-- `mlist_pop`. -/
def mlistPop (list : Mlist) (index : Int) (m : Memory α) :
    Option (Option α × Mlist × Memory α) := do
  let node ← getNode list index m
  match node with
  | some address => removeNode list address m
  | none => some (none, list, m)

/-- `mlist_replace`. -/
def mlistReplace (list : Mlist) (index : Int) (element : Option α) (m : Memory α) :
    Option (Option α × Memory α) := do
  let node ← getNode list index m
  match node with
  | some address =>
      let cell ← m.heap address
      let m ← m.setElem (some address) element
      some (cell.elem, m)
  | none => some (none, m)

/-- What `mlist_remove` changes: the list, the memory, the element it returns, and what the
    destroyer does. -/
structure Removal (α ω : Type) where
  list : Mlist
  memory : Memory α
  elem : Option α
  world : ω

/-- `node_fn` of `mlist_remove`. -/
def Removal.nodeFn (s : Removal α ω) (address : Nat) : Option (Removal α ω) := do
  let (elem, list, m) ← removeNode s.list address s.memory
  some { s with list := list, memory := m, elem := elem }

/-- `mlist_remove`, with a destroyer or without. -/
def mlistRemove (list : Mlist) (cond : Option α → Bool) (destroyer : Option (ω → Option α → ω))
    (m : Memory α) (world : ω) : Option (Removal α ω) :=
  let elemFn := destroyer.map fun destroyer (s : Removal α ω) element =>
    some { s with world := destroyer s.world element }
  traverseNodes Removal.memory list (some Removal.nodeFn) elemFn (some cond) false
    { list := list, memory := m, elem := none, world := world }

/-- `free`, as it is given to the loop of `mlist_clear`. -/
def freeNode (s : Memory α × ω) (address : Nat) : Option (Memory α × ω) := do
  let m ← s.1.free address
  some (m, s.2)

/-- `mlist_clear`. -/
def mlistClear (list : Mlist) (destroyer : Option (ω → Option α → ω)) (m : Memory α)
    (world : ω) : Option (Mlist × Memory α × ω) := do
  let elemFn := destroyer.map fun destroyer (s : Memory α × ω) element =>
    some (s.1, destroyer s.2 element)
  let s ← traverseNodes Prod.fst list (some freeNode) elemFn none false (m, world)
  some ({ list with head := none, tail := none, length := 0 }, s.1, s.2)

section Malloc

variable (malloc : Nat → Finmap (fun _ : Nat => Node α) → Nat)

/-- `mlist_append`. -/
def mlistAppend (list : Mlist) (element : Option α) (m : Memory α) :
    Option (Mlist × Memory α) :=
  let (node, m) := createNode malloc element m
  insertAfter list list.tail node m

/-- `mlist_insert`. -/
def mlistInsert (list : Mlist) (index : Int) (element : Option α) (m : Memory α) :
    Option (Mlist × Memory α) :=
  if index < 0 ∨ list.length < index then some (list, m)
  else
    let (new, m) := createNode malloc element m
    if index < list.length then do
      let base ← if index = 0 then some list.head else getNode list index m
      insertBefore list base new m
    else insertAfter list list.tail new m

/-- `mlist_copy`. -/
def mlistCopy (list : Mlist) (m : Memory α) : Option (Mlist × Memory α) :=
  traverseNodes Prod.snd list none
    (some fun s element => mlistAppend malloc s.1 element s.2) none false (mlistCreate, m)

/-- `mlist_reverse`. -/
def mlistReverse (list : Mlist) (m : Memory α) : Option (Mlist × Memory α) :=
  traverseNodes Prod.snd list none
    (some fun s element => mlistAppend malloc s.1 element s.2) none true (mlistCreate, m)

/-- `mlist_filter`. -/
def mlistFilter (list : Mlist) (condition : Option α → Bool) (m : Memory α) :
    Option (Mlist × Memory α) :=
  traverseNodes Prod.snd list none
    (some fun s element =>
      if condition element then mlistAppend malloc s.1 element s.2 else some s)
    none false (mlistCreate, m)

/-- `mlist_map`. -/
def mlistMap (list : Mlist) (map : Option α → Option α) (m : Memory α) :
    Option (Mlist × Memory α) :=
  traverseNodes Prod.snd list none
    (some fun s element => mlistAppend malloc s.1 (map element) s.2) none false (mlistCreate, m)

end Malloc

/-! ### Two lists -/

/-- The lists in use, by address, and the memory of their nodes. -/
structure Listas (α : Type) where
  lists : Finmap fun _ : Nat => Mlist
  memory : Memory α

/-- `routine` of `mlist_extend`. -/
def Listas.routine (malloc : Nat → Finmap (fun _ : Nat => Node α) → Nat) (list : Nat)
    (s : Listas α) (element : Option α) : Option (Listas α) := do
  let l ← s.lists.lookup list
  let (l, m) ← mlistAppend malloc l element s.memory
  some { lists := s.lists.insert list l, memory := m }

/-- `mlist_extend`, given its two pointers, for at most `fuel` rounds of the loop of
    `traverse_nodes`. The list that is gone through may be the one that grows, and so its
    length does not say how many rounds there are. -/
def mlistExtend (malloc : Nat → Finmap (fun _ : Nat => Node α) → Nat) (fuel list other : Nat)
    (s : Listas α) : Option (Listas α) := do
  let o ← s.lists.lookup other
  traverseLoop Listas.memory none (some (Listas.routine malloc list)) none false fuel o.head s

/-! ### A list in use -/

/-- A change of a list. -/
inductive Operacion (α ω : Type)
  | append (element : Option α)
  | insert (index : Int) (element : Option α)
  | pop (index : Int)
  | remove (cond : Option α → Bool) (destroyer : Option (ω → Option α → ω))
  | replace (index : Int) (element : Option α)
  | clear (destroyer : Option (ω → Option α → ω))

/-- A list, the memory, the world, and what the last function has returned. -/
structure Estado (α ω : Type) where
  list : Mlist
  memory : Memory α
  world : ω
  result : Option α

/-- A new list in a memory that others use. -/
def Estado.init (m : Memory α) (world : ω) : Estado α ω :=
  { list := mlistCreate, memory := m, world := world, result := none }

/-- An operation. Those that return nothing leave null. -/
def Estado.step (malloc : Nat → Finmap (fun _ : Nat => Node α) → Nat) (s : Estado α ω) :
    Operacion α ω → Option (Estado α ω)
  | .append element => do
      let (list, m) ← mlistAppend malloc s.list element s.memory
      some { s with list := list, memory := m, result := none }
  | .insert index element => do
      let (list, m) ← mlistInsert malloc s.list index element s.memory
      some { s with list := list, memory := m, result := none }
  | .pop index => do
      let (elem, list, m) ← mlistPop s.list index s.memory
      some { s with list := list, memory := m, result := elem }
  | .remove cond destroyer => do
      let r ← mlistRemove s.list cond destroyer s.memory s.world
      some { list := r.list, memory := r.memory, world := r.world, result := r.elem }
  | .replace index element => do
      let (elem, m) ← mlistReplace s.list index element s.memory
      some { s with memory := m, result := elem }
  | .clear destroyer => do
      let (list, m, world) ← mlistClear s.list destroyer s.memory s.world
      some { list := list, memory := m, world := world, result := none }

end Common

end Esther
