import Esther.Core.Mlist
import Esther.Lib.Transition

/-!
# What the List Functions Do

The functions of the common library, each on a list that is made of known nodes.

`Rep` says which nodes a list is made of. A function that changes the list is described by
the nodes the list has afterwards, and by what it does not touch: the nodes of the memory
that are not of the list. Nodes that come into a list are new. So what one function does
can be put together with what the next one does, and the nodes of other lists can be
forgotten.

The loop of `traverse_nodes` has one rule, `traverseLoop_rule`, from which those of
`mlist_remove`, `mlist_clear` and the functions that make a list are derived.

## Main definitions

* `Rep`: The nodes a list is made of.
* `Made`: A list that has been made from another one.
* `Removing`, `Clearing`: The loops of `mlist_remove` and `mlist_clear`.

## Theorems

* `insertAfter_spec`, `insertBefore_spec`, `removeNode_spec`: A node more or less.
* `getNode_spec`: The node at an index, from either end.
* `traverseLoop_rule`: What the rounds of the loop keep holds at its end.
* `mlistAppend_spec`, `mlistInsert_spec`, `mlistPop_spec`, `mlistReplace_spec`,
  `mlistRemove_spec`, `mlistClear_spec`: The functions that change a list.
* `traverse_made`: Those that make one.
* `mlistGet_spec`, `mlistFirst_spec`, `mlistLast_spec`: Those that read one.
* `mlistIndex_spec`, `mlistFind_spec`, `mlistContains_spec`, `mlistAny_eq`, `mlistAll_eq`,
  `mlistCount_spec`: Those that look for an element.
-/

namespace Esther

namespace Common

open Chain Transition

variable {α ω σ : Type}

/-- A list is made of some nodes of the memory, linked in order. -/
structure Rep (m : Memory α) (list : Mlist) (nodes : List (Nat × Option α)) : Prop where
  head : list.head = first nodes none
  tail : list.tail = last nodes none
  length : list.length = nodes.length
  nodup : (addresses nodes).Nodup
  linked : Linked m.heap none nodes none
  entero : fitsInt list.length = true

theorem fitsInt_iff (i : Int) : fitsInt i = true ↔ -2 ^ 31 ≤ i ∧ i < 2 ^ 31 := by
  simp only [fitsInt, Bool.and_eq_true, decide_eq_true_eq]

/-! ### Memory -/

theorem heap_insert (nodes : Finmap fun _ : Nat => Node α) (n address : Nat) (cell : Node α) :
    Memory.heap { nodes := nodes.insert address cell, mallocs := n }
      = Function.update (fun a => nodes.lookup a) address (some cell) := by
  funext a
  by_cases ha : a = address
  · rw [ha, Function.update_self]
    exact Finmap.lookup_insert _
  · rw [Function.update_of_ne ha]
    exact Finmap.lookup_insert_of_ne _ ha

/-- An assignment to a member of a node that is there. -/
theorem modify_eq (m : Memory α) (address : Nat) (f : Node α → Node α)
    (h : (m.heap address).isSome = true) :
    ∃ m', m.modify (some address) f = some m' ∧ m'.heap = modifyCell m.heap (some address) f := by
  rcases Option.isSome_iff_exists.mp h with ⟨cell, hcell⟩
  refine ⟨{ m with nodes := m.nodes.insert address (f cell) }, ?_, ?_⟩
  · simp only [Memory.modify, Option.bind_eq_bind, Option.bind_some, hcell]
  · rw [heap_insert, modifyCell, hcell]
    rfl

theorem setNext_eq (m : Memory α) (address : Nat) (next : Option Nat)
    (h : (m.heap address).isSome = true) : ∃ m', m.setNext (some address) next = some m' ∧
      m'.heap = setNext m.heap (some address) next := modify_eq m address _ h

theorem setPrev_eq (m : Memory α) (address : Nat) (prev : Option Nat)
    (h : (m.heap address).isSome = true) : ∃ m', m.setPrev (some address) prev = some m' ∧
      m'.heap = setPrev m.heap (some address) prev := modify_eq m address _ h

theorem setElem_eq (m : Memory α) (address : Nat) (elem : Option α)
    (h : (m.heap address).isSome = true) : ∃ m', m.setElem (some address) elem = some m' ∧
      m'.heap = setElem m.heap (some address) elem := modify_eq m address _ h

theorem free_eq (m : Memory α) (address : Nat) (h : (m.heap address).isSome = true) :
    ∃ m', m.free address = some m' ∧ m'.heap = Function.update m.heap address none := by
  rcases Option.isSome_iff_exists.mp h with ⟨cell, hcell⟩
  refine ⟨{ m with nodes := m.nodes.erase address }, by simp only [Memory.free, hcell], ?_⟩
  funext a
  by_cases ha : a = address
  · rw [ha, Function.update_self]
    exact Finmap.lookup_erase _ _
  · rw [Function.update_of_ne ha]
    exact Finmap.lookup_erase_ne ha

theorem setNext_guard (m : Memory α) (node next : Option Nat)
    (h : ∀ address, node = some address → (m.heap address).isSome = true) :
    ∃ m', m.setNextIf node next = some m' ∧
      m'.heap = setNext m.heap node next := by
  cases node with
  | none => exact ⟨m, rfl, rfl⟩
  | some address =>
      rw [Memory.setNextIf, if_pos (by simp only [ne_eq, reduceCtorEq, not_false_eq_true])]
      exact setNext_eq m address next (h address rfl)

theorem setPrev_guard (m : Memory α) (node prev : Option Nat)
    (h : ∀ address, node = some address → (m.heap address).isSome = true) :
    ∃ m', m.setPrevIf node prev = some m' ∧
      m'.heap = setPrev m.heap node prev := by
  cases node with
  | none => exact ⟨m, rfl, rfl⟩
  | some address =>
      rw [Memory.setPrevIf, if_pos (by simp only [ne_eq, reduceCtorEq, not_false_eq_true])]
      exact setPrev_eq m address prev (h address rfl)

/-- A node that is created is new. -/
theorem createNode_heap (malloc : Nat → Finmap (fun _ : Nat => Node α) → Nat)
    (element : Option α) (m : Memory α) :
    (createNode malloc element m).2.heap = Function.update m.heap
      (createNode malloc element m).1 (some { prev := none, next := none, elem := element }) :=
  heap_insert m.nodes _ _ _

/-! ### Insertion -/

/-- A new node between two parts of a list. -/
theorem rep_insert (m m' : Memory α) (list list' : Mlist) (xs ys : List (Nat × Option α))
    (new : Nat) (element : Option α) (hrep : Rep m list (xs ++ ys))
    (hnew : new ∉ addresses (xs ++ ys))
    (hheap : m'.heap = setNext (setPrev (Function.update m.heap new
      (some { prev := last xs none, next := first ys none, elem := element })) (first ys none)
      (some new)) (last xs none) (some new))
    (hhead : list'.head = first xs (some new)) (htail : list'.tail = last ys (some new))
    (hlength : list'.length = list.length + 1) (hentero : fitsInt (list.length + 1) = true) :
    Rep m' list' (xs ++ (new, element) :: ys) ∧
      Local m.heap ((new, element) :: (xs ++ ys)) m'.heap (xs ++ (new, element) :: ys) := by
  have hnodup := hrep.nodup
  have hsame : ∀ a, a ≠ new → Function.update m.heap new
      (some { prev := last xs none, next := first ys none, elem := element }) a = m.heap a :=
    fun a ha => Function.update_of_ne ha _ _
  have hmem : ∀ a, a ∈ addresses (xs ++ (new, element) :: ys)
      ↔ a = new ∨ a ∈ addresses (xs ++ ys) := by
    intro a
    simp only [addresses_append, addresses_cons, List.mem_append, List.mem_cons]
    exact or_left_comm
  constructor
  · -- The four ends have been joined to the new node.
    refine ⟨?_, ?_, ?_, ?_, ?_, ?_⟩
    · rw [hhead, first_append]
      rfl
    · rw [htail, last_append]
      rfl
    · rw [hlength, hrep.length, List.length_append, List.length_append, List.length_cons]
      omega
    · rw [addresses_append, addresses_cons, List.nodup_middle, ← addresses_append]
      exact List.nodup_cons.mpr ⟨hnew, hnodup⟩
    · rw [hheap]
      refine linked_insert _ xs ys new element hnodup hnew ?_ (Function.update_self _ _ _)
      exact linked_congr m.heap _ none none _ (fun a ha => hsame a fun heq => hnew (heq ▸ ha))
        hrep.linked
    · rw [hlength]
      exact hentero
  · -- The neighbours are nodes of the list, so no other cell has been written.
    refine ⟨fun a cell ha hcell => ?_, fun a ha => Or.inl ?_⟩
    · rw [addresses_cons, List.mem_cons, not_or] at ha
      rw [addresses_append, List.mem_append, not_or] at ha
      rw [hheap, setNext_of_ne _ _ _ a fun heq => ha.2.1 (mem_of_last xs a heq),
        setPrev_of_ne _ _ _ a fun heq => ha.2.2 (mem_of_first ys a heq), hsame a ha.1]
      exact hcell
    · rw [addresses_cons, List.mem_cons]
      exact (hmem a).mp ha

/-- The first node of a list. -/
theorem rep_singleton (m : Memory α) (list : Mlist) (new : Nat) (element : Option α)
    (hrep : Rep m list []) (hcell : m.heap new
      = some { prev := none, next := none, elem := element }) :
    Rep m { head := some new, tail := some new, length := list.length + 1 } [(new, element)] := by
  have hlength := hrep.length
  refine ⟨rfl, rfl, ?_, List.nodup_singleton _, ⟨hcell, trivial⟩, ?_⟩
  · show list.length + 1 = 1
    rw [hlength]
    rfl
  · show fitsInt (list.length + 1) = true
    rw [fitsInt_iff, hlength, List.length_nil]
    decide

/-- The links of a new node. -/
theorem links_new (m : Memory α) (new : Nat) (prev next : Option Nat) (element : Option α)
    (hcell : m.heap new = some { prev := none, next := none, elem := element }) :
    setPrev (setNext m.heap (some new) next) (some new) prev
      = Function.update m.heap new (some { prev := prev, next := next, elem := element }) := by
  simp only [setPrev, setNext, modifyCell, hcell, Option.map_some, Function.update_self,
    Function.update_idem]

/-- The nodes of a list are there, also when a new one is written. -/
theorem rep_isSome (m : Memory α) (list : Mlist) (nodes : List (Nat × Option α))
    (hrep : Rep m list nodes) (address : Nat) (h : address ∈ addresses nodes) (new : Nat)
    (cell : Node α) : (Function.update m.heap new (some cell) address).isSome = true := by
  by_cases heq : address = new
  · rw [heq, Function.update_self]
    rfl
  · rw [Function.update_of_ne heq]
    exact Option.isSome_iff_exists.mpr
      (exists_of_linked m.heap none none nodes hrep.linked address h)

/-- The last node of the first part of a list that is cut in two. -/
theorem rep_last (m : Memory α) (list : Mlist) (ws ys : List (Nat × Option α))
    (node : Nat × Option α) (hrep : Rep m list (ws ++ [node] ++ ys)) :
    m.heap node.1 = some { prev := last ws none, next := first ys none, elem := node.2 } := by
  have hlinked := hrep.linked
  rw [List.append_assoc, List.singleton_append] at hlinked
  exact linked_middle m.heap none none ws ys node.1 node.2 hlinked

theorem insertAfter_spec (m : Memory α) (list : Mlist) (xs ys : List (Nat × Option α)) (new : Nat)
    (element : Option α) (hrep : Rep m list (xs ++ ys)) (hxs : xs = [] → ys = [])
    (hcell : m.heap new = some { prev := none, next := none, elem := element })
    (hnew : new ∉ addresses (xs ++ ys)) (hentero : fitsInt (list.length + 1) = true) :
    ∃ list' m', insertAfter list (last xs none) new m = some (list', m') ∧
      Rep m' list' (xs ++ (new, element) :: ys) ∧
      Local m.heap ((new, element) :: (xs ++ ys)) m'.heap (xs ++ (new, element) :: ys) := by
  rcases List.eq_nil_or_concat xs with rfl | ⟨ws, node, rfl⟩
  · -- The list is empty.
    rw [hxs rfl] at hrep ⊢
    refine ⟨_, m, ?_, rep_singleton m list new element hrep hcell, Local.refl _ _⟩
    have hempty : list.length = 0 := hrep.length
    rw [insertAfter, if_pos hempty]
    simp only [Mlist.addLength, if_pos hentero, Option.bind_eq_bind, Option.bind_some]
  · rw [List.concat_eq_append] at hrep hnew ⊢
    have hne : list.length ≠ 0 := by
      rw [hrep.length, List.length_append, List.length_append, List.length_singleton]
      omega
    have hbase := rep_last m list ws ys node hrep
    have hother : new ≠ node.1 := by
      intro heq
      rw [heq, addresses_append, addresses_append] at hnew
      exact hnew (List.mem_append_left _ (List.mem_append_right _ List.mem_cons_self))
    -- The writes, in order: the new node, the one before, and the one after if there is one.
    rcases setNext_eq m new (first ys none) (by rw [hcell]; rfl) with ⟨m₁, hm₁, hheap₁⟩
    rcases setPrev_eq m₁ new (some node.1) (by rw [hheap₁, isSome_setNext, hcell]; rfl)
      with ⟨m₂, hm₂, hheap₂⟩
    rw [hheap₁, links_new m new _ _ element hcell] at hheap₂
    rcases setNext_eq m₂ node.1 (some new)
      (by rw [hheap₂, Function.update_of_ne hother.symm, hbase]; rfl) with ⟨m₃, hm₃, hheap₃⟩
    have hread : m.node (some node.1)
        = some { prev := last ws none, next := first ys none, elem := node.2 } := hbase
    have hread' : m₃.node (some new)
        = some { prev := some node.1, next := first ys none, elem := element } := by
      show m₃.heap new = _
      rw [hheap₃, setNext_of_ne _ _ _ new (fun heq => hother (Option.some.inj heq).symm), hheap₂,
        Function.update_self]
    have hhead : list.head = first (ws ++ [node]) (some new) := by
      rw [hrep.head, first_append]
      exact first_of_ne_nil _ _ _ (List.append_ne_nil_of_right_ne_nil _ (List.cons_ne_nil _ _))
    rw [insertAfter, if_neg hne, last_concat]
    simp only [hread, hm₁, hm₂, hm₃, hread', Option.bind_eq_bind, Option.bind_some, Mlist.addLength,
      if_pos hentero]
    cases ys with
    | nil =>
        refine ⟨_, m₃, rfl, rep_insert m m₃ list _ (ws ++ [node]) [] new element hrep hnew ?_ hhead
          rfl rfl hentero⟩
        rw [hheap₃, hheap₂, last_concat]
        rfl
    | cons next zs =>
        have hnext : (m₃.heap next.1).isSome = true := by
          rw [hheap₃, isSome_setNext, hheap₂]
          refine rep_isSome m list _ hrep next.1 ?_ new _
          rw [addresses_append]
          exact List.mem_append_right _ List.mem_cons_self
        rcases setPrev_eq m₃ next.1 (some new) hnext with ⟨m₄, hm₄, hheap₄⟩
        simp only [first_cons, hm₄, Option.bind_some]
        refine ⟨_, m₄, rfl, rep_insert m m₄ list _ (ws ++ [node]) (next :: zs) new element hrep hnew
          ?_ hhead ?_ rfl hentero⟩
        · rw [hheap₄, hheap₃, hheap₂, last_concat, setNext_setPrev]
          rfl
        · show list.tail = _
          rw [hrep.tail, last_append]
          rfl

theorem insertBefore_spec (m : Memory α) (list : Mlist) (xs ys : List (Nat × Option α)) (new : Nat)
    (element : Option α) (hrep : Rep m list (xs ++ ys)) (hys : ys ≠ [])
    (hcell : m.heap new = some { prev := none, next := none, elem := element })
    (hnew : new ∉ addresses (xs ++ ys)) (hentero : fitsInt (list.length + 1) = true) :
    ∃ list' m', insertBefore list (first ys none) new m = some (list', m') ∧
      Rep m' list' (xs ++ (new, element) :: ys) ∧
      Local m.heap ((new, element) :: (xs ++ ys)) m'.heap (xs ++ (new, element) :: ys) := by
  cases ys with
  | nil => exact absurd rfl hys
  | cons node zs =>
      have hne : list.length ≠ 0 := by
        rw [hrep.length, List.length_append, List.length_cons]
        omega
      have hbase := linked_middle m.heap none none xs zs node.1 node.2 hrep.linked
      have hother : new ≠ node.1 := by
        intro heq
        rw [heq, addresses_append] at hnew
        exact hnew (List.mem_append_right _ List.mem_cons_self)
      -- The writes, in order: the new node, the one after, and the one before if there is one.
      rcases setPrev_eq m new (last xs none) (by rw [hcell]; rfl) with ⟨m₁, hm₁, hheap₁⟩
      rcases setNext_eq m₁ new (some node.1) (by rw [hheap₁, isSome_setPrev, hcell]; rfl)
        with ⟨m₂, hm₂, hheap₂⟩
      rw [hheap₁, setNext_setPrev, links_new m new _ _ element hcell] at hheap₂
      rcases setPrev_eq m₂ node.1 (some new)
        (by rw [hheap₂, Function.update_of_ne hother.symm, hbase]; rfl) with ⟨m₃, hm₃, hheap₃⟩
      have hread : m.node (some node.1)
          = some { prev := last xs none, next := first zs none, elem := node.2 } := hbase
      have hread' : m₃.node (some new)
          = some { prev := last xs none, next := some node.1, elem := element } := by
        show m₃.heap new = _
        rw [hheap₃, setPrev_of_ne _ _ _ new (fun heq => hother (Option.some.inj heq).symm), hheap₂,
          Function.update_self]
      have htail : list.tail = last (node :: zs) (some new) := by
        rw [hrep.tail, last_append]
        rfl
      rw [insertBefore, if_neg hne, first_cons]
      simp only [hread, hm₁, hm₂, hm₃, hread', Option.bind_eq_bind, Option.bind_some,
        Mlist.addLength, if_pos hentero]
      rcases List.eq_nil_or_concat xs with rfl | ⟨ws, before, rfl⟩
      · refine ⟨_, m₃, rfl, rep_insert m m₃ list _ [] (node :: zs) new element hrep hnew ?_ rfl htail
          rfl hentero⟩
        rw [hheap₃, hheap₂]
        rfl
      · rw [List.concat_eq_append] at hrep hnew hheap₂ ⊢
        have hprev : (m₃.heap before.1).isSome = true := by
          rw [hheap₃, isSome_setPrev, hheap₂]
          refine rep_isSome m list _ hrep before.1 ?_ new _
          rw [addresses_append, addresses_append]
          exact List.mem_append_left _ (List.mem_append_right _ List.mem_cons_self)
        rcases setNext_eq m₃ before.1 (some new) hprev with ⟨m₄, hm₄, hheap₄⟩
        simp only [last_concat, hm₄, Option.bind_some]
        refine ⟨_, m₄, rfl, rep_insert m m₄ list _ (ws ++ [before]) (node :: zs) new element hrep
          hnew ?_ ?_ htail rfl hentero⟩
        · rw [hheap₄, hheap₃, hheap₂, last_concat]
          rfl
        · show list.head = _
          rw [hrep.head, first_append]
          exact first_of_ne_nil _ _ _ (List.append_ne_nil_of_right_ne_nil _ (List.cons_ne_nil _ _))

theorem addLength_none (list : Mlist) (head tail : Option Nat) (n : Int)
    (h : fitsInt (list.length + n) = false) :
    Mlist.addLength { head := head, tail := tail, length := list.length } n = none :=
  if_neg (ne_true_of_eq_false h)

/-- A list that is as long as an `int` can count takes no more. -/
theorem insertAfter_none (m : Memory α) (list : Mlist) (base : Option Nat) (new : Nat)
    (hentero : fitsInt (list.length + 1) = false) : insertAfter list base new m = none := by
  have hlength := fun head tail => addLength_none list head tail 1 hentero
  have hsame : list.addLength 1 = none := hlength list.head list.tail
  unfold insertAfter
  by_cases hempty : list.length = 0
  · rw [if_pos hempty, hlength]
    rfl
  · rw [if_neg hempty]
    refine Option.bind_eq_none_iff.mpr fun node _ => Option.bind_eq_none_iff.mpr fun m₁ _ =>
      Option.bind_eq_none_iff.mpr fun m₂ _ => Option.bind_eq_none_iff.mpr fun m₃ _ =>
      Option.bind_eq_none_iff.mpr fun node' _ => ?_
    cases node'.next with
    | none =>
        simp only [hlength]
        rfl
    | some next => exact Option.bind_eq_none_iff.mpr fun m₄ _ => by rw [hsame]; rfl

theorem insertBefore_none (m : Memory α) (list : Mlist) (base : Option Nat) (new : Nat)
    (hentero : fitsInt (list.length + 1) = false) : insertBefore list base new m = none := by
  have hlength := fun head tail => addLength_none list head tail 1 hentero
  have hsame : list.addLength 1 = none := hlength list.head list.tail
  unfold insertBefore
  by_cases hempty : list.length = 0
  · rw [if_pos hempty, hlength]
    rfl
  · rw [if_neg hempty]
    refine Option.bind_eq_none_iff.mpr fun node _ => Option.bind_eq_none_iff.mpr fun m₁ _ =>
      Option.bind_eq_none_iff.mpr fun m₂ _ => Option.bind_eq_none_iff.mpr fun m₃ _ =>
      Option.bind_eq_none_iff.mpr fun node' _ => ?_
    cases node'.prev with
    | none =>
        simp only [hlength]
        rfl
    | some prev => exact Option.bind_eq_none_iff.mpr fun m₄ _ => by rw [hsame]; rfl

/-! ### Removal -/

/-- The end of a list from which a node is taken. -/
theorem head_remove (list : Mlist) (xs ys : List (Nat × Option α)) (node : Nat × Option α)
    (hhead : list.head = first (xs ++ node :: ys) none) (hnode : node.1 ∉ addresses xs) :
    (if some node.1 = list.head then { list with head := first ys none } else list)
      = { list with head := first (xs ++ ys) none } := by
  cases xs with
  | nil => rw [if_pos (show some node.1 = list.head from hhead.symm), List.nil_append]
  | cons other xs =>
      rw [if_neg (fun heq => ?_)]
      · rw [List.cons_append, first_cons] at hhead ⊢
        rw [← hhead]
      · rw [hhead, List.cons_append, first_cons, Option.some.injEq] at heq
        exact hnode (heq ▸ List.mem_cons_self)

theorem tail_remove (list : Mlist) (xs ys : List (Nat × Option α)) (node : Nat × Option α)
    (htail : list.tail = last (xs ++ node :: ys) none) (hnode : node.1 ∉ addresses ys) :
    (if some node.1 = list.tail then { list with tail := last xs none } else list)
      = { list with tail := last (xs ++ ys) none } := by
  rw [last_append] at htail
  cases ys with
  | nil => rw [if_pos (show some node.1 = list.tail from htail.symm), List.append_nil]
  | cons other ys =>
      have hlast : list.tail = last (xs ++ other :: ys) none := by
        rw [htail, last_append]
        rfl
      rw [if_neg (fun heq => ?_), ← hlast]
      rw [htail] at heq
      exact hnode (mem_of_last (other :: ys) node.1 heq.symm)

/-- A node is taken out of a list and freed. -/
theorem removeNode_spec (m : Memory α) (list : Mlist) (xs ys : List (Nat × Option α))
    (address : Nat) (element : Option α) (hrep : Rep m list (xs ++ (address, element) :: ys)) :
    ∃ list' m', removeNode list address m = some (element, list', m') ∧
      Rep m' list' (xs ++ ys) ∧
      Local m.heap (xs ++ (address, element) :: ys) m'.heap (xs ++ ys) := by
  have hnodup := hrep.nodup
  have hlinked := hrep.linked
  have hcell := linked_middle m.heap none none xs ys address element hlinked
  have hpresent : ∀ a, a ∈ addresses (xs ++ (address, element) :: ys) →
      (m.heap a).isSome = true := fun a ha =>
    Option.isSome_iff_exists.mpr (exists_of_linked m.heap none none _ hlinked a ha)
  have hdistinct := hnodup
  rw [addresses_append, addresses_cons, List.nodup_append, List.nodup_cons] at hdistinct
  rcases hdistinct with ⟨_, ⟨hnotys, _⟩, hdisjoint⟩
  have hnotxs : address ∉ addresses xs := fun ha => hdisjoint address ha address List.mem_cons_self rfl
  have hlast : last xs none ≠ some address := fun heq => hnotxs (mem_of_last xs address heq)
  have hfirst : first ys none ≠ some address := fun heq => hnotys (mem_of_first ys address heq)
  -- The writes, in order: the node before, if there is one, the node after, and the node itself.
  rcases setNext_guard m (last xs none) (first ys none) (fun a ha => hpresent a (by
    rw [addresses_append]
    exact List.mem_append_left _ (mem_of_last xs a ha))) with ⟨m₁, hm₁, hheap₁⟩
  have hcell₁ : m₁.heap address
      = some { prev := last xs none, next := first ys none, elem := element } := by
    rw [hheap₁, setNext_of_ne _ _ _ _ hlast, hcell]
  rcases setPrev_guard m₁ (first ys none) (last xs none) (fun a ha => by
    rw [hheap₁, isSome_setNext]
    refine hpresent a ?_
    rw [addresses_append]
    exact List.mem_append_right _ (List.mem_cons_of_mem _ (mem_of_first ys a ha)))
    with ⟨m₂, hm₂, hheap₂⟩
  have hcell₂ : m₂.heap address
      = some { prev := last xs none, next := first ys none, elem := element } := by
    rw [hheap₂, setPrev_of_ne _ _ _ _ hfirst, hcell₁]
  rcases free_eq m₂ address (by rw [hcell₂]; rfl) with ⟨m₃, hm₃, hheap₃⟩
  have hsublist : (addresses (xs ++ ys)).Sublist (addresses (xs ++ (address, element) :: ys)) := by
    rw [addresses_append, addresses_append]
    exact (List.sublist_cons_self _ _).append_left _
  have hlength : list.length + -1 = (xs ++ ys).length := by
    rw [hrep.length, List.length_append, List.length_append, List.length_cons]
    omega
  have hentero : fitsInt (list.length + -1) = true := by
    have hold := (fitsInt_iff _).mp hrep.entero
    rw [fitsInt_iff]
    omega
  refine ⟨{ head := first (xs ++ ys) none, tail := last (xs ++ ys) none
            length := list.length + -1 }, m₃, ?_, ⟨rfl, rfl, hlength, ?_, ?_, hentero⟩, ?_⟩
  · unfold removeNode
    simp only [hcell, hcell₁, hcell₂, hm₁, hm₂, hm₃, Option.bind_eq_bind, Option.bind_some]
    rw [head_remove list xs ys (address, element) hrep.head hnotxs]
    rw [tail_remove { list with head := first (xs ++ ys) none } xs ys (address, element) hrep.tail
      hnotys]
    simp only [Mlist.addLength, if_pos hentero, Option.bind_some]
  · exact hnodup.sublist hsublist
  · rw [hheap₃, hheap₂, hheap₁]
    exact linked_remove m.heap xs ys address element hnodup hlinked
  · refine ⟨fun a cell ha hkept => ?_, fun a ha => Or.inl (hsublist.subset ha)⟩
    rw [addresses_append, addresses_cons, List.mem_append, List.mem_cons, not_or, not_or] at ha
    rw [hheap₃, Function.update_of_ne ha.2.1, hheap₂,
      setPrev_of_ne _ _ _ a fun heq => ha.2.2 (mem_of_first ys a heq), hheap₁,
      setNext_of_ne _ _ _ a fun heq => ha.1 (mem_of_last xs a heq)]
    exact hkept

/-! ### Ways to a node -/

theorem first_eq (nodes : List (Nat × Option α)) :
    first nodes none = nodes.head?.map Prod.fst := by
  cases nodes <;> rfl

/-- The node at an index, from either end, and null where there is none. -/
theorem getNode_spec (m : Memory α) (list : Mlist) (nodes : List (Nat × Option α))
    (hrep : Rep m list nodes) (index : Int) :
    getNode list index m
      = some (if 0 ≤ index then nodes[index.toNat]?.map Prod.fst else none) := by
  have hlength := hrep.length
  rw [getNode]
  by_cases hout : index < 0 ∨ list.length ≤ index
  · rw [if_pos hout, Option.some.injEq]
    split
    · rw [List.getElem?_eq_none (by omega)]
      rfl
    · rfl
  · rw [not_or] at hout
    rw [if_neg (not_or.mpr hout), if_pos (show 0 ≤ index from Int.not_lt.mp hout.1)]
    have hlt : index.toNat < nodes.length := by omega
    have hget : nodes[index.toNat]? = some nodes[index.toNat] := List.getElem?_eq_getElem hlt
    have hlinked := hrep.linked
    by_cases hhalf : index ≤ list.length / 2
    · -- From the head, past the nodes before the index.
      rw [if_pos hhalf]
      have hfollow := follow_next m.heap none none (nodes.take index.toNat)
        (nodes.drop index.toNat) (by rw [List.take_append_drop]; exact hlinked)
      rw [List.take_append_drop, List.length_take, Nat.min_eq_left (Nat.le_of_lt hlt),
        ← hrep.head] at hfollow
      rw [hfollow, first_eq, List.head?_drop]
    · -- From the tail, past the nodes after it.
      rw [if_neg hhalf]
      have hfollow := follow_prev m.heap none none (nodes.take (index.toNat + 1))
        (nodes.drop (index.toNat + 1)) (by rw [List.take_append_drop]; exact hlinked)
      have hsteps : (nodes.drop (index.toNat + 1)).length = (list.length - (index + 1)).toNat := by
        rw [List.length_drop]
        omega
      rw [List.take_append_drop, hsteps, ← hrep.tail] at hfollow
      rw [hfollow, List.take_add_one, hget, Option.toList_some, last_concat]
      rfl

theorem getElem_spec (m : Memory α) (list : Mlist) (nodes : List (Nat × Option α))
    (hrep : Rep m list nodes) (node : Option (Nat × Option α)) (hnode : ∀ n, node = some n → n ∈ nodes) :
    getElem (node.map Prod.fst) m = some (node.map Prod.snd).join := by
  cases node with
  | none => rfl
  | some node =>
      rcases List.append_of_mem (hnode node rfl) with ⟨xs, ys, hsplit⟩
      have hlinked := hrep.linked
      rw [hsplit] at hlinked
      have hcell : m.node (some node.1) = _ := linked_middle m.heap none none xs ys node.1 node.2 hlinked
      simp only [getElem, Option.map_some, ne_eq, reduceCtorEq, not_false_eq_true, if_true, hcell,
        Option.join_some]

theorem mlistGet_spec (m : Memory α) (list : Mlist) (nodes : List (Nat × Option α))
    (hrep : Rep m list nodes) (index : Int) : mlistGet list index m
      = some (if 0 ≤ index then (nodes.map Prod.snd)[index.toNat]?.join else none) := by
  rw [mlistGet, getNode_spec m list nodes hrep index, Option.bind_eq_bind, Option.bind_some]
  split
  · rw [getElem_spec m list nodes hrep _ fun node hnode => List.mem_of_getElem? hnode,
      List.getElem?_map]
  · rfl

theorem mlistFirst_spec (m : Memory α) (list : Mlist) (nodes : List (Nat × Option α))
    (hrep : Rep m list nodes) : mlistFirst list m = some (nodes.map Prod.snd).head?.join := by
  have hlength := hrep.length
  cases nodes with
  | nil => exact if_neg (not_not_intro hlength)
  | cons node nodes =>
      have hcell : m.node (some node.1) = _ := hrep.linked.1
      rw [List.length_cons] at hlength
      rw [mlistFirst, if_pos (by omega), hrep.head, first_cons, hcell]
      rfl

theorem mlistLast_spec (m : Memory α) (list : Mlist) (nodes : List (Nat × Option α))
    (hrep : Rep m list nodes) : mlistLast list m = some (nodes.map Prod.snd).getLast?.join := by
  have hlength := hrep.length
  rcases List.eq_nil_or_concat nodes with rfl | ⟨xs, node, rfl⟩
  · exact if_neg (not_not_intro hlength)
  · rw [List.concat_eq_append] at hrep hlength ⊢
    have hcell : m.node (some node.1) = _ :=
      linked_middle m.heap none none xs [] node.1 node.2 hrep.linked
    rw [List.length_append, List.length_singleton] at hlength
    rw [mlistLast, if_pos (by omega), hrep.tail, last_concat, hcell, List.map_append,
      List.map_singleton, List.getLast?_concat]
    rfl

theorem mlistPop_spec (m : Memory α) (list : Mlist) (xs ys : List (Nat × Option α))
    (node : Nat × Option α) (hrep : Rep m list (xs ++ node :: ys)) :
    ∃ list' m', mlistPop list xs.length m = some (node.2, list', m') ∧ Rep m' list' (xs ++ ys) ∧
      Local m.heap (xs ++ node :: ys) m'.heap (xs ++ ys) := by
  rcases removeNode_spec m list xs ys node.1 node.2 hrep with ⟨list', m', hremove, hrest⟩
  refine ⟨list', m', ?_, hrest⟩
  rw [mlistPop, getNode_spec m list _ hrep, if_pos (Int.natCast_nonneg _), Int.toNat_natCast,
    List.getElem?_append_right (Nat.le_refl _), Nat.sub_self]
  exact hremove

/-- An index that is not one of the list. -/
theorem getNode_out (m : Memory α) (list : Mlist) (index : Int)
    (h : ¬ (0 ≤ index ∧ index < list.length)) : getNode list index m = some none := by
  rw [getNode, if_pos (by omega)]

theorem mlistReplace_spec (m : Memory α) (list : Mlist) (xs ys : List (Nat × Option α))
    (node : Nat × Option α) (element : Option α) (hrep : Rep m list (xs ++ node :: ys)) :
    ∃ m', mlistReplace list xs.length element m = some (node.2, m') ∧
      Rep m' list (xs ++ (node.1, element) :: ys) ∧
      Local m.heap (xs ++ node :: ys) m'.heap (xs ++ (node.1, element) :: ys) := by
  have hcell := linked_middle m.heap none none xs ys node.1 node.2 hrep.linked
  rcases setElem_eq m node.1 element (by rw [hcell]; rfl) with ⟨m', hset, hheap⟩
  have hsame : addresses (xs ++ (node.1, element) :: ys) = addresses (xs ++ node :: ys) := by
    rw [addresses_append, addresses_append]
    rfl
  refine ⟨m', ?_, ⟨?_, ?_, ?_, ?_, ?_, hrep.entero⟩, fun a cell ha hkept => ?_, fun a ha => ?_⟩
  · rw [mlistReplace, getNode_spec m list _ hrep, if_pos (Int.natCast_nonneg _), Int.toNat_natCast,
      List.getElem?_append_right (Nat.le_refl _), Nat.sub_self]
    simp only [List.getElem?_cons_zero, Option.map_some, hcell, hset, Option.bind_eq_bind,
      Option.bind_some]
  · rw [hrep.head, first_append, first_append]
    rfl
  · rw [hrep.tail, last_append, last_append]
    rfl
  · rw [hrep.length, List.length_append, List.length_append]
    rfl
  · rw [hsame]
    exact hrep.nodup
  · rw [hheap]
    exact linked_replace m.heap xs ys node.1 node.2 element hrep.nodup hrep.linked
  · rw [hheap, ← hkept]
    refine modifyCell_of_ne m.heap (some node.1) _ a fun heq => ha ?_
    rw [← Option.some.inj heq, addresses_append]
    exact List.mem_append_right _ List.mem_cons_self
  · rw [hsame] at ha
    exact Or.inl ha

/-! ### Traversal -/

/-- A round that looks at the element alone. -/
theorem visit_elem (elemFn : σ → Option α → Option σ) (address : Nat) (element : Option α)
    (s : σ) : visit none (some elemFn) none address element s = elemFn s element := by
  rw [visit, Option.all_none, if_pos rfl]
  exact Option.bind_fun_some _

theorem traverseLoop_end (memory : σ → Memory α) (nodeFn : Option (σ → Nat → Option σ))
    (elemFn : Option (σ → Option α → Option σ)) (cond : Option (Option α → Bool))
    (reversed : Bool) (fuel : Nat) (s : σ) :
    traverseLoop memory nodeFn elemFn cond reversed fuel none s = some s := by
  rw [traverseLoop]

/-- The rule of the loop: what a round keeps for the nodes done and those to come holds at
    the end for all of them. The next node is found before the round, and a round must leave
    it where it is. -/
theorem traverseLoop_rule (memory : σ → Memory α) (nodeFn : Option (σ → Nat → Option σ))
    (elemFn : Option (σ → Option α → Option σ)) (cond : Option (Option α → Bool))
    (reversed : Bool) (Inv : List (Nat × Option α) → List (Nat × Option α) → σ → Prop)
    (hround : ∀ done node rest s, Inv done (node :: rest) s → ∃ cell s',
      (memory s).heap node.1 = some cell ∧ cell.elem = node.2 ∧
      (if reversed then cell.prev else cell.next) = first rest none ∧
      visit nodeFn elemFn cond node.1 node.2 s = some s' ∧ Inv (done ++ [node]) rest s')
    (done nodes : List (Nat × Option α)) (s : σ) (hs : Inv done nodes s) :
    ∃ s', traverseLoop memory nodeFn elemFn cond reversed nodes.length (first nodes none) s
      = some s' ∧ Inv (done ++ nodes) [] s' := by
  induction nodes generalizing done s with
  | nil =>
      refine ⟨s, ?_, ?_⟩
      · exact traverseLoop_end memory nodeFn elemFn cond reversed 0 s
      · rw [List.append_nil]
        exact hs
  | cons node rest ih =>
      rcases hround done node rest s hs with ⟨cell, s', hcell, helem, hnext, hvisit, hinv⟩
      rcases ih (done ++ [node]) s' hinv with ⟨t, hloop, ht⟩
      refine ⟨t, ?_, ?_⟩
      · rw [List.length_cons, first_cons, traverseLoop]
        simp only [hcell, helem, hnext, hvisit, Option.bind_eq_bind, Option.bind_some]
        exact hloop
      · rw [List.append_assoc, List.singleton_append] at ht
        exact ht

/-- The nodes in the order in which the loop goes through them. -/
def way (nodes : List (Nat × Option α)) (reversed : Bool) : List (Nat × Option α) :=
  if reversed then nodes.reverse else nodes

theorem length_way (nodes : List (Nat × Option α)) (reversed : Bool) :
    (way nodes reversed).length = nodes.length := by
  cases reversed with
  | false => rfl
  | true => exact List.length_reverse

/-- The rule for a whole list, from either end. -/
theorem traverseNodes_rule (memory : σ → Memory α) (nodeFn : Option (σ → Nat → Option σ))
    (elemFn : Option (σ → Option α → Option σ)) (cond : Option (Option α → Bool))
    (reversed : Bool) (Inv : List (Nat × Option α) → List (Nat × Option α) → σ → Prop)
    (hround : ∀ done node rest s, Inv done (node :: rest) s → ∃ cell s',
      (memory s).heap node.1 = some cell ∧ cell.elem = node.2 ∧
      (if reversed then cell.prev else cell.next) = first rest none ∧
      visit nodeFn elemFn cond node.1 node.2 s = some s' ∧ Inv (done ++ [node]) rest s')
    (m : Memory α) (list : Mlist) (nodes : List (Nat × Option α)) (hrep : Rep m list nodes) (s : σ)
    (hs : Inv [] (way nodes reversed) s) :
    ∃ s', traverseNodes memory list nodeFn elemFn cond reversed s = some s' ∧
      Inv (way nodes reversed) [] s' := by
  have hrounds : list.length.toNat = (way nodes reversed).length := by
    rw [length_way, hrep.length]
    rfl
  have hstart : (if reversed then list.tail else list.head) = first (way nodes reversed) none := by
    cases reversed with
    | false => exact hrep.head
    | true => exact hrep.tail.trans (first_reverse nodes none).symm
  rw [traverseNodes, hstart, hrounds]
  exact traverseLoop_rule memory nodeFn elemFn cond reversed Inv hround [] _ s hs

/-- The nodes on the way of a loop, from either end: each is there, with the next one after
    it. -/
theorem rep_way (m : Memory α) (list : Mlist) (nodes : List (Nat × Option α))
    (hrep : Rep m list nodes) (reversed : Bool) (done rest : List (Nat × Option α))
    (node : Nat × Option α)
    (hway : way nodes reversed = done ++ node :: rest) :
    ∃ cell, m.heap node.1 = some cell ∧ cell.elem = node.2 ∧
      (if reversed then cell.prev else cell.next) = first rest none := by
  have hlinked := hrep.linked
  cases reversed with
  | false =>
      rw [way, if_neg Bool.false_ne_true] at hway
      rw [hway] at hlinked
      exact ⟨_, linked_middle m.heap none none done rest node.1 node.2 hlinked, rfl, rfl⟩
  | true =>
      rw [way, if_pos rfl, List.reverse_eq_iff, List.reverse_append, List.reverse_cons,
        List.append_assoc, List.singleton_append] at hway
      rw [hway] at hlinked
      refine ⟨_, linked_middle m.heap none none rest.reverse done.reverse node.1 node.2 hlinked,
        rfl, ?_⟩
      rw [← first_reverse, List.reverse_reverse]
      rfl

section Malloc

variable (malloc : Nat → Finmap (fun _ : Nat => Node α) → Nat)

/-- A list in a memory with one node more, which is not of the list. -/
theorem rep_createNode (hmalloc : ∀ n nodes, malloc n nodes ∉ nodes) (m : Memory α) (list : Mlist)
    (nodes : List (Nat × Option α)) (element : Option α) (hrep : Rep m list nodes) :
    (createNode malloc element m).1 ∉ addresses nodes ∧
      Rep (createNode malloc element m).2 list nodes ∧
      Local m.heap nodes (createNode malloc element m).2.heap
        (((createNode malloc element m).1, element) :: nodes) := by
  have hfree : m.heap (createNode malloc element m).1 = none :=
    Finmap.lookup_eq_none.mpr (hmalloc m.mallocs m.nodes)
  have hkeeps : ∀ a cell, m.heap a = some cell →
      (createNode malloc element m).2.heap a = some cell := by
    intro a cell hcell
    rw [createNode_heap, Function.update_of_ne (fun heq => ?_), hcell]
    rw [heq, hfree] at hcell
    exact absurd hcell (by simp only [reduceCtorEq, not_false_eq_true])
  refine ⟨fun hmem => ?_, ⟨hrep.head, hrep.tail, hrep.length, hrep.nodup, ?_, hrep.entero⟩,
    fun a cell _ hcell => hkeeps a cell hcell, fun a ha => ?_⟩
  · rcases exists_of_linked m.heap none none nodes hrep.linked _ hmem with ⟨cell, hcell⟩
    rw [hfree] at hcell
    exact absurd hcell (by simp only [reduceCtorEq, not_false_eq_true])
  · refine linked_congr m.heap _ none none nodes (fun a ha => ?_) hrep.linked
    rcases exists_of_linked m.heap none none nodes hrep.linked a ha with ⟨cell, hcell⟩
    rw [hcell]
    exact hkeeps a cell hcell
  · rw [addresses_cons, List.mem_cons] at ha
    rcases ha with rfl | hmem
    · exact Or.inr hfree
    · exact Or.inl hmem

theorem mlistAppend_spec (hmalloc : ∀ n nodes, malloc n nodes ∉ nodes) (m : Memory α)
    (list : Mlist) (nodes : List (Nat × Option α)) (element : Option α) (hrep : Rep m list nodes)
    (hentero : fitsInt (list.length + 1) = true) :
    ∃ new list' m', mlistAppend malloc list element m = some (list', m') ∧
      Rep m' list' (nodes ++ [(new, element)]) ∧
      Local m.heap nodes m'.heap (nodes ++ [(new, element)]) := by
  rcases rep_createNode malloc hmalloc m list nodes element hrep with ⟨hnew, hrep', hlocal⟩
  have hcell : (createNode malloc element m).2.heap (createNode malloc element m).1
      = some { prev := none, next := none, elem := element } := by
    rw [createNode_heap, Function.update_self]
  rw [← List.append_nil nodes] at hrep' hnew
  rcases insertAfter_spec _ list nodes [] _ element hrep' (fun _ => rfl) hcell hnew hentero
    with ⟨list', m', hinsert, hafter, hlocal'⟩
  rw [← hrep.tail] at hinsert
  rw [List.append_nil] at hlocal'
  exact ⟨_, list', m', hinsert, hafter, Local.trans _ _ _ _ _ _ hlocal hlocal'⟩

theorem mlistAppend_none (m : Memory α) (list : Mlist) (element : Option α)
    (hentero : fitsInt (list.length + 1) = false) : mlistAppend malloc list element m = none :=
  insertAfter_none _ list _ _ hentero

/-- The index after the last one of the list. -/
theorem mlistInsert_end (m : Memory α) (list : Mlist) (index : Int) (element : Option α)
    (hindex : 0 ≤ index ∧ index = list.length) :
    mlistInsert malloc list index element m = mlistAppend malloc list element m := by
  rw [mlistInsert, if_neg (by omega), mlistAppend]
  simp only [if_neg (show ¬ index < list.length by omega)]

/-- An index of the list or the one after it. -/
theorem mlistInsert_spec (hmalloc : ∀ n nodes, malloc n nodes ∉ nodes) (m : Memory α)
    (list : Mlist) (nodes : List (Nat × Option α)) (index : Nat) (element : Option α)
    (hrep : Rep m list nodes) (hindex : index ≤ nodes.length)
    (hentero : fitsInt (list.length + 1) = true) :
    ∃ new list' m', mlistInsert malloc list index element m = some (list', m') ∧
      Rep m' list' (nodes.take index ++ (new, element) :: nodes.drop index) ∧
      Local m.heap nodes m'.heap (nodes.take index ++ (new, element) :: nodes.drop index) := by
  have hlength := hrep.length
  by_cases hlt : (index : Int) < list.length
  · -- Before the node at the index.
    rcases rep_createNode malloc hmalloc m list nodes element hrep with ⟨hnew, hrep', hlocal⟩
    have hcell : (createNode malloc element m).2.heap (createNode malloc element m).1
        = some { prev := none, next := none, elem := element } := by
      rw [createNode_heap, Function.update_self]
    have hsplit := List.take_append_drop index nodes
    have hget := getNode_spec _ list nodes hrep' index
    rw [if_pos (Int.natCast_nonneg index), Int.toNat_natCast] at hget
    rw [← hsplit] at hrep' hnew
    have hne : nodes.drop index ≠ [] := by
      rw [Ne, List.drop_eq_nil_iff]
      omega
    rcases insertBefore_spec _ list _ _ _ element hrep' hne hcell hnew hentero
      with ⟨list', m', hinsert, hafter, hlocal'⟩
    rw [hsplit] at hlocal'
    refine ⟨_, list', m', ?_, hafter, Local.trans _ _ _ _ _ _ hlocal hlocal'⟩
    rw [first_eq, List.head?_drop] at hinsert
    rw [mlistInsert, if_neg (by omega)]
    simp only [if_pos hlt]
    by_cases hzero : (index : Int) = 0
    · obtain rfl : index = 0 := by omega
      rw [if_pos hzero, hrep.head, first_eq, List.head?_eq_getElem?]
      exact hinsert
    · rw [if_neg hzero, hget]
      exact hinsert
  · -- At the end.
    rw [mlistInsert_end malloc m list index element (by omega),
      List.drop_eq_nil_iff.mpr (show nodes.length ≤ index by omega),
      List.take_of_length_le (show nodes.length ≤ index by omega)]
    exact mlistAppend_spec malloc hmalloc m list nodes element hrep hentero

theorem mlistInsert_none (m : Memory α) (list : Mlist) (index : Int) (element : Option α)
    (hindex : 0 ≤ index ∧ index ≤ list.length) (hentero : fitsInt (list.length + 1) = false) :
    mlistInsert malloc list index element m = none := by
  by_cases hlt : index < list.length
  · rw [mlistInsert, if_neg (by omega)]
    simp only [if_pos hlt]
    by_cases hzero : index = 0
    · rw [if_pos hzero]
      exact insertBefore_none _ list _ _ hentero
    · rw [if_neg hzero]
      exact Option.bind_eq_none_iff.mpr fun base _ => insertBefore_none _ list base _ hentero
  · rw [mlistInsert_end malloc m list index element (by omega)]
    exact mlistAppend_none malloc m list element hentero

/-- A new list. -/
theorem rep_create (m : Memory α) : Rep m mlistCreate [] :=
  ⟨rfl, rfl, rfl, List.nodup_nil, trivial, (fitsInt_iff 0).mpr (by decide)⟩

/-! ### Making lists -/

/-- A list that is made from another one, in a memory whose nodes are all left as they are. -/
structure Made (m : Memory α) (elems : List (Option α)) (s : Mlist × Memory α) : Prop where
  rep : ∃ nodes, Rep s.2 s.1 nodes ∧ nodes.map Prod.snd = elems ∧ Local m.heap [] s.2.heap nodes

theorem made_create (m : Memory α) : Made m [] (mlistCreate, m) :=
  ⟨[], rep_create m, rfl, Local.refl m.heap []⟩

/-- A round of a loop that appends something to a new list for each element, or for some of
    them. -/
theorem made_round (hmalloc : ∀ n nodes, malloc n nodes ∉ nodes)
    (f : Option α → Option (Option α)) (elemFn : Mlist × Memory α → Option α → Option (Mlist × Memory α))
    (hsome : ∀ s x y, f x = some y → elemFn s x = mlistAppend malloc s.1 y s.2)
    (hnone : ∀ s x, f x = none → elemFn s x = some s) (m : Memory α)
    (done : List (Nat × Option α)) (node : Nat × Option α) (s : Mlist × Memory α)
    (hs : Made m ((done.map Prod.snd).filterMap f) s) (hlength : (done.length : Int) + 1 < 2 ^ 31) :
    ∃ s', visit none (some elemFn) none node.1 node.2 s = some s' ∧
      Made m (((done ++ [node]).map Prod.snd).filterMap f) s' := by
  rcases hs with ⟨made, hrep, hmade, hlocal⟩
  rw [visit_elem, List.map_append, List.filterMap_append, List.map_singleton]
  cases hf : f node.2 with
  | none =>
      refine ⟨s, hnone s node.2 hf, made, hrep, ?_, hlocal⟩
      rw [List.filterMap_cons_none hf, List.filterMap_nil, List.append_nil]
      exact hmade
  | some y =>
      -- The new list has at most as many nodes as the loop has done.
      have hlen : made.length ≤ done.length := by
        have hfilter := List.length_filterMap_le f (done.map Prod.snd)
        rw [← hmade, List.length_map, List.length_map] at hfilter
        exact hfilter
      have hfits : fitsInt (s.1.length + 1) = true := by
        rw [fitsInt_iff, hrep.length]
        omega
      rcases mlistAppend_spec malloc hmalloc s.2 s.1 made y hrep hfits
        with ⟨new, list', m', happend, hrep', hlocal'⟩
      refine ⟨(list', m'), (hsome s node.2 y hf).trans happend, made ++ [(new, y)], hrep', ?_,
        Local.trans _ _ _ _ _ _ hlocal hlocal'⟩
      rw [List.map_append, hmade, List.filterMap_cons_some hf, List.filterMap_nil]
      rfl

theorem traverse_made (hmalloc : ∀ n nodes, malloc n nodes ∉ nodes)
    (f : Option α → Option (Option α)) (elemFn : Mlist × Memory α → Option α → Option (Mlist × Memory α))
    (hsome : ∀ s x y, f x = some y → elemFn s x = mlistAppend malloc s.1 y s.2)
    (hnone : ∀ s x, f x = none → elemFn s x = some s) (reversed : Bool) (m : Memory α)
    (list : Mlist) (nodes : List (Nat × Option α)) (hrep : Rep m list nodes) :
    ∃ s, traverseNodes Prod.snd list none (some elemFn) none reversed (mlistCreate, m) = some s ∧
      Made m (((way nodes reversed).map Prod.snd).filterMap f) s := by
  have hentero := (fitsInt_iff _).mp hrep.entero
  have hlength := hrep.length
  rcases traverseNodes_rule Prod.snd none (some elemFn) none reversed
    (fun done rest s => way nodes reversed = done ++ rest ∧
      Made m ((done.map Prod.snd).filterMap f) s)
    (fun done node rest s ⟨hsplit, hs⟩ => by
      rcases rep_way m list nodes hrep reversed done rest node hsplit
        with ⟨cell, hcell, helem, hnext⟩
      have hdone := congrArg List.length hsplit
      rw [length_way, List.length_append, List.length_cons] at hdone
      rcases made_round malloc hmalloc f elemFn hsome hnone m done node s hs (by omega)
        with ⟨s', hvisit, hs'⟩
      -- The nodes of the source are where they were.
      rcases hs with ⟨made, _, _, hlocal⟩
      refine ⟨cell, s', hlocal.keeps node.1 cell List.not_mem_nil hcell, helem, hnext, hvisit, ?_, hs'⟩
      rw [hsplit, List.append_assoc, List.singleton_append])
    m list nodes hrep (mlistCreate, m) ⟨rfl, made_create m⟩ with ⟨s, hloop, _, hmade⟩
  exact ⟨s, hloop, hmade⟩

end Malloc

/-- What a destroyer does to some elements, one after another. -/
def destroyAll (destroyer : Option (ω → Option α → ω)) (world : ω) (elems : List (Option α)) : ω :=
  match destroyer with
  | some destroyer => elems.foldl destroyer world
  | none => world

theorem destroyAll_concat (destroyer : Option (ω → Option α → ω)) (world : ω)
    (elems : List (Option α)) (x : Option α) : destroyAll destroyer world (elems ++ [x])
      = destroyAll destroyer (destroyAll destroyer world elems) [x] := by
  cases destroyer with
  | none => rfl
  | some destroyer => exact List.foldl_append

theorem destroyAll_nil (destroyer : Option (ω → Option α → ω)) (world : ω) :
    destroyAll destroyer world [] = world := by
  cases destroyer <;> rfl

/-- The loop of `mlist_remove`. What is kept of the nodes done stands before those to come. -/
structure Removing (m : Memory α) (nodes : List (Nat × Option α)) (cond : Option α → Bool)
    (destroyer : Option (ω → Option α → ω)) (world : ω) (done rest kept : List (Nat × Option α))
    (s : Removal α ω) : Prop where
  rep : Rep s.memory s.list (kept ++ rest)
  elems : kept.map Prod.snd = (done.map Prod.snd).filter fun x => !cond x
  near : Local m.heap nodes s.memory.heap (kept ++ rest)
  elem : s.elem = ((done.map Prod.snd).filter cond).getLast?.join
  world : s.world = destroyAll destroyer world ((done.map Prod.snd).filter cond)

/-- A round of it, over an element that is kept or removed. -/
theorem removing_round (m : Memory α) (nodes : List (Nat × Option α)) (cond : Option α → Bool)
    (destroyer : Option (ω → Option α → ω)) (world : ω) (done rest kept : List (Nat × Option α))
    (node : Nat × Option α) (s : Removal α ω)
    (hs : Removing m nodes cond destroyer world done (node :: rest) kept s) :
    ∃ s' kept', visit (some Removal.nodeFn)
        (destroyer.map fun destroyer (s : Removal α ω) element =>
          some { s with world := destroyer s.world element }) (some cond) node.1 node.2 s = some s' ∧
      Removing m nodes cond destroyer world (done ++ [node]) rest kept' s' := by
  have hcall : call (destroyer.map fun destroyer (s : Removal α ω) element =>
      some { s with world := destroyer s.world element }) s node.2
      = some { s with world := destroyAll destroyer s.world [node.2] } := by
    cases destroyer <;> rfl
  have hdone : (done ++ [node]).map Prod.snd = done.map Prod.snd ++ [node.2] := List.map_append
  rw [visit, Option.all_some]
  cases hcond : cond node.2 with
  | false =>
      -- The node stays and joins those that are kept.
      have hkeep : [node.2].filter (fun x => !cond x) = [node.2] :=
        List.filter_cons_of_pos (by rw [hcond]; rfl)
      have hnone : [node.2].filter cond = [] :=
        List.filter_cons_of_neg (by rw [hcond]; exact Bool.false_ne_true)
      have hsplit : (kept ++ [node]) ++ rest = kept ++ node :: rest := by
        rw [List.append_assoc, List.singleton_append]
      refine ⟨s, kept ++ [node], if_neg Bool.false_ne_true, ?_, ?_, ?_, ?_, ?_⟩
      · rw [hsplit]
        exact hs.rep
      · rw [hdone, List.filter_append, hkeep, ← hs.elems]
        exact List.map_append
      · rw [hsplit]
        exact hs.near
      · rw [hdone, List.filter_append, hnone, List.append_nil]
        exact hs.elem
      · rw [hdone, List.filter_append, hnone, List.append_nil]
        exact hs.world
  | true =>
      -- The element is destroyed first, and its node taken out.
      have hdrop : [node.2].filter (fun x => !cond x) = [] :=
        List.filter_cons_of_neg (by rw [hcond]; exact Bool.false_ne_true)
      have hone : [node.2].filter cond = [node.2] := List.filter_cons_of_pos hcond
      rcases removeNode_spec s.memory s.list kept rest node.1 node.2 hs.rep
        with ⟨list', m', hremove, hrep', hlocal'⟩
      refine ⟨{ list := list', memory := m', elem := node.2
                world := destroyAll destroyer s.world [node.2] }, kept, ?_, hrep', ?_,
        Local.trans _ _ _ _ _ _ hs.near hlocal', ?_, ?_⟩
      · rw [if_pos rfl, hcall]
        simp only [call, Removal.nodeFn, hremove, Option.bind_eq_bind, Option.bind_some]
      · rw [hdone, List.filter_append, hdrop, List.append_nil]
        exact hs.elems
      · rw [hdone, List.filter_append, hone, List.getLast?_concat]
        rfl
      · rw [hdone, List.filter_append, hone, destroyAll_concat, ← hs.world]

/-- All elements that meet the condition are removed, and no others, and the last of them is
    returned. -/
theorem mlistRemove_spec (m : Memory α) (list : Mlist) (nodes : List (Nat × Option α))
    (cond : Option α → Bool) (destroyer : Option (ω → Option α → ω)) (world : ω)
    (hrep : Rep m list nodes) :
    ∃ r kept, mlistRemove list cond destroyer m world = some r ∧
      Removing m nodes cond destroyer world nodes [] kept r := by
  rcases traverseNodes_rule Removal.memory (some Removal.nodeFn)
    (destroyer.map fun destroyer (s : Removal α ω) element =>
      some { s with world := destroyer s.world element }) (some cond) false
    (fun done rest s => ∃ kept, Removing m nodes cond destroyer world done rest kept s)
    (fun done node rest s ⟨kept, hs⟩ => by
      rcases removing_round m nodes cond destroyer world done rest kept node s hs
        with ⟨s', kept', hvisit, hs'⟩
      exact ⟨_, s', linked_middle s.memory.heap none none kept rest node.1 node.2 hs.rep.linked,
        rfl, rfl, hvisit, kept', hs'⟩)
    m list nodes hrep { list := list, memory := m, elem := none, world := world }
    ⟨[], hrep, rfl, Local.refl _ _, rfl, (destroyAll_nil destroyer world).symm⟩
    with ⟨r, hloop, kept, hr⟩
  exact ⟨r, kept, hloop, hr⟩

/-- The loop of `mlist_clear`, which frees the nodes done. -/
structure Clearing (m : Memory α) (nodes : List (Nat × Option α))
    (destroyer : Option (ω → Option α → ω)) (world : ω) (done rest : List (Nat × Option α))
    (s : Memory α × ω) : Prop where
  linked : Linked s.1.heap (last done none) rest none
  nodup : (addresses rest).Nodup
  near : Local m.heap nodes s.1.heap rest
  world : s.2 = destroyAll destroyer world (done.map Prod.snd)

theorem clearing_round (m : Memory α) (nodes : List (Nat × Option α))
    (destroyer : Option (ω → Option α → ω)) (world : ω) (done rest : List (Nat × Option α))
    (node : Nat × Option α) (s : Memory α × ω)
    (hs : Clearing m nodes destroyer world done (node :: rest) s) :
    ∃ s', visit (some freeNode) (destroyer.map fun destroyer (s : Memory α × ω) element =>
        some (s.1, destroyer s.2 element)) none node.1 node.2 s = some s' ∧
      Clearing m nodes destroyer world (done ++ [node]) rest s' := by
  have hcall : call (destroyer.map fun destroyer (s : Memory α × ω) element =>
      some (s.1, destroyer s.2 element)) s node.2
      = some (s.1, destroyAll destroyer s.2 [node.2]) := by
    cases destroyer <;> rfl
  have hcell := hs.linked.1
  have hnodup := List.nodup_cons.mp hs.nodup
  rcases free_eq s.1 node.1 (by rw [hcell]; rfl) with ⟨m', hfree, hheap⟩
  refine ⟨(m', destroyAll destroyer s.2 [node.2]), ?_, ?_, hnodup.2, ?_, ?_⟩
  · rw [visit, Option.all_none, if_pos rfl, hcall]
    simp only [call, freeNode, hfree, Option.bind_eq_bind, Option.bind_some]
  · rw [last_concat]
    refine linked_congr s.1.heap _ _ none rest (fun a ha => ?_) hs.linked.2
    refine (congrFun hheap a).trans (Function.update_of_ne (fun heq => hnodup.1 ?_) _ _)
    rw [← heq]
    exact ha
  · refine Local.trans _ _ _ _ _ _ hs.near ⟨fun a cell ha hkept => ?_, fun a ha => ?_⟩
    · rw [addresses_cons, List.mem_cons, not_or] at ha
      rw [hheap, Function.update_of_ne ha.1, hkept]
    · exact Or.inl (List.mem_cons_of_mem _ ha)
  · rw [List.map_append, List.map_singleton, destroyAll_concat, ← hs.world]

theorem mlistClear_spec (m : Memory α) (list : Mlist) (nodes : List (Nat × Option α))
    (destroyer : Option (ω → Option α → ω)) (world : ω) (hrep : Rep m list nodes) :
    ∃ list' m', mlistClear list destroyer m world
        = some (list', m', destroyAll destroyer world (nodes.map Prod.snd)) ∧
      Rep m' list' [] ∧ Local m.heap nodes m'.heap [] := by
  rcases traverseNodes_rule Prod.fst (some freeNode)
    (destroyer.map fun destroyer (s : Memory α × ω) element =>
      some (s.1, destroyer s.2 element)) none false
    (fun done rest s => Clearing m nodes destroyer world done rest s)
    (fun done node rest s hs => by
      rcases clearing_round m nodes destroyer world done rest node s hs with ⟨s', hvisit, hs'⟩
      exact ⟨_, s', hs.linked.1, rfl, rfl, hvisit, hs'⟩)
    m list nodes hrep (m, world)
    ⟨hrep.linked, hrep.nodup, Local.refl _ _, (destroyAll_nil destroyer world).symm⟩
    with ⟨s, hloop, hs⟩
  refine ⟨mlistCreate, s.1, ?_, rep_create s.1, hs.near⟩
  rw [mlistClear, Option.bind_eq_bind, hloop, Option.bind_some, hs.world]
  rfl

/-! ### Search -/

/-- The loop stops at the first element that meets the condition, or at the end. -/
theorem searchLoop_spec (m : Memory α) (cond : Option α → Bool) (prev : Option Nat)
    (nodes : List (Nat × Option α)) (hlinked : Linked m.heap prev nodes none) (index : Nat) :
    searchLoop m cond nodes.length (first nodes none) index
      = some ((nodes.find? fun node => cond node.2).map Prod.fst,
          index + (nodes.map Prod.snd).findIdx cond) := by
  induction nodes generalizing prev index with
  | nil => rfl
  | cons node nodes ih =>
      have hcell := hlinked.1
      rw [List.length_cons, first_cons, searchLoop, hcell, List.map_cons, List.findIdx_cons]
      cases hcond : cond node.2 with
      | true =>
          simp only [List.find?_cons, Option.bind_eq_bind, Option.bind_some, hcond, if_true, cond_true,
            Option.map_some, Nat.add_zero]
      | false =>
          simp only [List.find?_cons, Option.bind_eq_bind, Option.bind_some, hcond,
            Bool.false_eq_true, if_false, cond_false]
          rw [ih (some node.1) hlinked.2 (index + 1), Nat.add_assoc, Nat.add_comm 1]

/-- The search from the head of a list. -/
theorem search_eq (m : Memory α) (list : Mlist) (nodes : List (Nat × Option α))
    (cond : Option α → Bool) (hrep : Rep m list nodes) :
    searchLoop m cond list.length.toNat list.head 0
      = some ((nodes.find? fun node => cond node.2).map Prod.fst,
          (nodes.map Prod.snd).findIdx cond) := by
  have hrounds : list.length.toNat = nodes.length := by
    rw [hrep.length]
    rfl
  rw [hrounds, hrep.head, searchLoop_spec m cond none nodes hrep.linked 0, Nat.zero_add]

theorem mlistIndex_spec (m : Memory α) (list : Mlist) (nodes : List (Nat × Option α))
    (cond : Option α → Bool) (hrep : Rep m list nodes) : mlistIndex list cond m
      = some (if (nodes.map Prod.snd).any cond then ((nodes.map Prod.snd).findIdx cond : Int)
          else -1) := by
  have hlt : (((nodes.map Prod.snd).findIdx cond : Nat) : Int) < list.length
      ↔ (nodes.map Prod.snd).any cond = true := by
    rw [hrep.length, Int.ofNat_lt, ← List.length_map Prod.snd, List.findIdx_lt_length,
      List.any_eq_true]
  simp only [mlistIndex, search_eq m list nodes cond hrep, Option.bind_eq_bind, Option.bind_some, hlt]

theorem mlistFind_spec (m : Memory α) (list : Mlist) (nodes : List (Nat × Option α))
    (cond : Option α → Bool) (hrep : Rep m list nodes) :
    mlistFind list cond m = some ((nodes.map Prod.snd).find? cond).join := by
  simp only [mlistFind, search_eq m list nodes cond hrep, Option.bind_eq_bind, Option.bind_some]
  rw [getElem_spec m list nodes hrep _ fun node hnode => List.mem_of_find?_eq_some hnode,
    List.find?_map]
  rfl

theorem mlistContains_spec [DecidableEq α] (m : Memory α) (list : Mlist)
    (nodes : List (Nat × Option α)) (element : Option α) (hrep : Rep m list nodes) :
    mlistContains list element m = some (decide (element ∈ nodes.map Prod.snd)) := by
  rw [mlistContains, mlistIndex_spec m list nodes _ hrep, Option.bind_eq_bind, Option.bind_some,
    Option.some.injEq, List.any_beq']
  by_cases hmem : element ∈ nodes.map Prod.snd
  · rw [decide_eq_true hmem, if_pos (List.contains_iff_mem.mpr hmem), bne_iff_ne]
    omega
  · rw [decide_eq_false hmem, if_neg fun h => hmem (List.contains_iff_mem.mp h)]
    rfl

/-- `mlist_any` looks at the element that is found, and a null one counts for none. -/
theorem mlistAny_spec (m : Memory α) (list : Mlist) (nodes : List (Nat × Option α))
    (cond : Option α → Bool) (hrep : Rep m list nodes) :
    mlistAny list cond m = some ((nodes.map Prod.snd).find? cond).join.isSome := by
  rw [mlistAny, mlistFind_spec m list nodes cond hrep]
  rfl

/-- That makes no difference to a condition that null does not meet. -/
theorem mlistAny_eq (m : Memory α) (list : Mlist) (nodes : List (Nat × Option α))
    (cond : Option α → Bool) (hrep : Rep m list nodes) (hnull : cond none = false) :
    mlistAny list cond m = some ((nodes.map Prod.snd).any cond) := by
  rw [mlistAny_spec m list nodes cond hrep, Option.some.injEq, Bool.eq_iff_iff, List.any_eq_true,
    ← List.find?_isSome]
  cases hfind : (nodes.map Prod.snd).find? cond with
  | none => exact Iff.rfl
  | some x => cases x with
    | none => exact absurd ((List.find?_some hfind).symm.trans hnull) (by simp only [reduceCtorEq, not_false_eq_true])
    | some x => exact Iff.rfl

theorem mlistAll_eq (m : Memory α) (list : Mlist) (nodes : List (Nat × Option α))
    (cond : Option α → Bool) (hrep : Rep m list nodes) (hnull : cond none = true) :
    mlistAll list cond m = some ((nodes.map Prod.snd).all cond) := by
  rw [mlistAll, mlistAny_eq m list nodes _ hrep (by rw [hnull]; rfl), List.all_eq_not_any_not]
  rfl

theorem mlistCount_spec (m : Memory α) (list : Mlist) (nodes : List (Nat × Option α))
    (cond : Option α → Bool) (hrep : Rep m list nodes) :
    mlistCount list cond m = some ((nodes.map Prod.snd).countP cond : Int) := by
  rcases traverseNodes_rule (fun _ => m) (some fun count _ => some (count + 1)) none (some cond) false
    (fun done rest count => way nodes false = done ++ rest ∧
      count = ((done.map Prod.snd).countP cond : Int))
    (fun done node rest count ⟨hsplit, hcount⟩ => by
      rcases rep_way m list nodes hrep false done rest node hsplit with ⟨cell, hcell, helem, hnext⟩
      refine ⟨cell, if cond node.2 then count + 1 else count, hcell, helem, hnext, ?_, ?_, ?_⟩
      · rw [visit, Option.all_some]
        cases cond node.2 <;> rfl
      · rw [hsplit, List.append_assoc, List.singleton_append]
      · rw [List.map_append, List.map_singleton, List.countP_append, List.countP_singleton, hcount]
        cases cond node.2 <;> rfl)
    m list nodes hrep 0 ⟨rfl, rfl⟩ with ⟨count, hloop, _, hcount⟩
  rw [mlistCount, hloop, hcount]
  rfl

end Common

end Esther
