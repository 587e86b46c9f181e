import Esther.Core.Mlist

/-!
# Lists in Use

A program with any number of lists, which are made, changed and destroyed through pointers.

The struct of a list is a block of its own, which `mlist_create` gets and `mlist_destroy`
gives back. Which address `malloc` finds for it is part of a call that makes a list, and a
call whose address is that of a list in use is none. The structs and the nodes are of
different types and never at one address. A pointer that is given to a function is that of
a list in use, or the call has no result.

## Main definitions

* `mlistTraverse`, `mlistDestroy`: The functions of a list that goes on or ends.
* `Llamada`, `Programa.step`: What a program does with its lists.
-/

namespace Esther

namespace Common

variable {α ω : Type}

/-- `mlist_traverse`, for a routine that leaves the lists as they are. -/
def mlistTraverse (list : Mlist) (routine : ω → Option α → ω) (m : Memory α) (world : ω) :
    Option ω :=
  traverseNodes (fun _ => m) list none (some fun world element => some (routine world element))
    none false world

/-- `mlist_destroy`. -/
def mlistDestroy (list : Nat) (destroyer : Option (ω → Option α → ω)) (s : Listas α) (world : ω) :
    Option (Listas α × ω) := do
  let l ← s.lists.lookup list
  let (_, m, world) ← mlistClear l destroyer s.memory world
  some ({ lists := s.lists.erase list, memory := m }, world)

/-- The block of a new list. -/
def Listas.put (s : Listas α) (new : Nat) (list : Mlist) (m : Memory α) : Option (Listas α) :=
  match s.lists.lookup new with
  | some _ => none
  | none => some { lists := s.lists.insert new list, memory := m }

/-- A call. Those that make a list say where its struct is. -/
inductive Llamada (α ω : Type)
  | create (new : Nat)
  | change (list : Nat) (e : Operacion α ω)
  | traverse (list : Nat) (routine : ω → Option α → ω)
  | extend (list other : Nat)
  | copy (list new : Nat)
  | reverse (list new : Nat)
  | filter (list new : Nat) (cond : Option α → Bool)
  | map (list new : Nat) (f : Option α → Option α)
  | destroy (list : Nat) (destroyer : Option (ω → Option α → ω))

/-- The lists of a program, the world, and what the last call has returned. -/
structure Programa (α ω : Type) where
  listas : Listas α
  world : ω
  result : Option α

/-- A program without lists, in a memory that others use. -/
def Programa.init (m : Memory α) (world : ω) : Programa α ω :=
  { listas := { lists := ∅, memory := m }, world := world, result := none }

/-- The list at an address, as `Estado.step` takes it. -/
def Programa.estado (s : Programa α ω) (l : Mlist) : Estado α ω :=
  { list := l, memory := s.listas.memory, world := s.world, result := s.result }

/-- What a function has made from the list at an address becomes a list of its own. -/
def Programa.make (s : Programa α ω) (list new : Nat)
    (f : Mlist → Memory α → Option (Mlist × Memory α)) : Option (Programa α ω) := do
  let l ← s.listas.lists.lookup list
  let (made, m) ← f l s.listas.memory
  let listas ← s.listas.put new made m
  some { s with listas := listas, result := none }

/-- A call. A list that is extended is given as many rounds as the other one has nodes. -/
def Programa.step (malloc : Nat → Finmap (fun _ : Nat => Node α) → Nat) (s : Programa α ω) :
    Llamada α ω → Option (Programa α ω)
  | .create new => do
      let listas ← s.listas.put new mlistCreate s.listas.memory
      some { s with listas := listas, result := none }
  | .change list e => do
      let l ← s.listas.lists.lookup list
      let t ← (s.estado l).step malloc e
      some {
        listas := { lists := s.listas.lists.insert list t.list, memory := t.memory }
        world := t.world
        result := t.result }
  | .traverse list routine => do
      let l ← s.listas.lists.lookup list
      let world ← mlistTraverse l routine s.listas.memory s.world
      some { s with world := world, result := none }
  | .extend list other => do
      let o ← s.listas.lists.lookup other
      let _ ← s.listas.lists.lookup list
      let listas ← mlistExtend malloc o.length.toNat list other s.listas
      some { s with listas := listas, result := none }
  | .copy list new => s.make list new (mlistCopy malloc)
  | .reverse list new => s.make list new (mlistReverse malloc)
  | .filter list new cond => s.make list new fun l m => mlistFilter malloc l cond m
  | .map list new f => s.make list new fun l m => mlistMap malloc l f m
  | .destroy list destroyer => do
      let (listas, world) ← mlistDestroy list destroyer s.listas s.world
      some { listas := listas, world := world, result := none }

end Common

end Esther
