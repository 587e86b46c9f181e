import Esther.Core.Lists
import Esther.Lib.Parcels
import Esther.Theory.Extend

/-!
# Many Lists

Lists that are made, changed, extended by each other and destroyed in one memory.

What a call does to one list it does not do to the others, because no node is of two lists.
And what a list no longer needs is given back, because a function that takes a node out of
a list frees it, and one that brings a node in links it. Neither is looked for in the nodes
themselves: a function changes the number of nodes there are and the number that its list
counts by the same.

## Main definitions

* `Familia`, `Familia.step`: Sequences with names, and what the calls do to them.
* `saldo`: The nodes that a list does not count.
* `Reparte`: Each list is made of its own nodes.
* `Sostiene`: What the functions say about lists that hold sequences.

## Theorems

* `step_saldo`, `traverse_saldo`: The balance of a list.
* `reparte_change`: One list changes.
* `reparte_step`: A call on the lists and on the sequences.
* `lists_refine`: The lists hold their sequences after every run.
-/

namespace Esther

namespace Common

open Chain Parcels Transition

variable {α ω σ : Type}

/-! ### Sequences with names -/

/-- Sequences by the addresses of their lists, with the world and what the last call has
    returned. -/
structure Familia (α ω : Type) where
  seqs : Finmap fun _ : Nat => List (Option α)
  world : ω
  result : Option α

def Familia.init (world : ω) : Familia α ω := { seqs := ∅, world := world, result := none }

/-- A new sequence. -/
def Familia.put (q : Familia α ω) (new : Nat) (elems : List (Option α)) :
    Option (Familia α ω) :=
  match q.seqs.lookup new with
  | some _ => none
  | none => some { q with seqs := q.seqs.insert new elems, result := none }

/-- A call. A sequence of two elements or more is not extended by itself. -/
def Familia.step (q : Familia α ω) : Llamada α ω → Option (Familia α ω)
  | .create new => q.put new []
  | .change list e => do
      let elems ← q.seqs.lookup list
      let t ← Secuencia.step { elems := elems, world := q.world, result := q.result } e
      some { seqs := q.seqs.insert list t.elems, world := t.world, result := t.result }
  | .traverse list routine => do
      let elems ← q.seqs.lookup list
      some { q with world := elems.foldl routine q.world, result := none }
  | .extend list other => do
      let others ← q.seqs.lookup other
      let elems ← q.seqs.lookup list
      if other = list ∧ 2 ≤ elems.length ∨ ¬ elems.length + others.length < 2 ^ 31 then none
      else some { q with seqs := q.seqs.insert list (elems ++ others), result := none }
  | .copy list new => do
      let elems ← q.seqs.lookup list
      q.put new elems
  | .reverse list new => do
      let elems ← q.seqs.lookup list
      q.put new elems.reverse
  | .filter list new cond => do
      let elems ← q.seqs.lookup list
      q.put new (elems.filter cond)
  | .map list new f => do
      let elems ← q.seqs.lookup list
      q.put new (elems.map f)
  | .destroy list destroyer => do
      let elems ← q.seqs.lookup list
      some {
        seqs := q.seqs.erase list
        world := destroyAll destroyer q.world elems
        result := none }

/-! ### Balance -/

/-- How many nodes there are that a list does not count. -/
def saldo (list : Mlist) (m : Memory α) : Int := m.nodes.keys.card - list.length

theorem keys_modify (m m' : Memory α) (node : Option Nat) (f : Node α → Node α)
    (h : m.modify node f = some m') : m'.nodes.keys = m.nodes.keys := by
  rcases Option.bind_eq_some_iff.mp h with ⟨address, _, h⟩
  rcases Option.bind_eq_some_iff.mp h with ⟨cell, hcell, h⟩
  obtain rfl := Option.some.inj h
  have hmem : address ∈ m.nodes := Finmap.lookup_isSome.mp (Option.isSome_of_mem hcell)
  ext a
  rw [Finmap.mem_keys, Finmap.mem_keys, Finmap.mem_insert, or_iff_right_iff_imp]
  rintro rfl
  exact hmem

theorem keys_modifyIf (m m' : Memory α) (node : Option Nat) (f : Node α → Node α)
    (h : (if node ≠ none then m.modify node f else some m) = some m') :
    m'.nodes.keys = m.nodes.keys := by
  split at h
  · exact keys_modify m m' node f h
  · rw [Option.some.inj h]

theorem addLength_length (list list' : Mlist) (n : Int) (h : list.addLength n = some list') :
    list'.length = list.length + n := by
  rw [Mlist.addLength] at h
  split at h
  · rw [← Option.some.inj h]
  · exact absurd h.symm (Option.some_ne_none _)

/-- A node is linked into a list. -/
theorem insertAfter_keys (list list' : Mlist) (base : Option Nat) (new : Nat) (m m' : Memory α)
    (h : insertAfter list base new m = some (list', m')) :
    m'.nodes.keys = m.nodes.keys ∧ list'.length = list.length + 1 := by
  rw [insertAfter] at h
  split at h
  · rcases Option.bind_eq_some_iff.mp h with ⟨l, hl, h⟩
    cases Option.some.inj h
    have hlength := addLength_length _ _ _ hl
    exact ⟨rfl, hlength⟩
  · rcases Option.bind_eq_some_iff.mp h with ⟨node, _, h⟩
    rcases Option.bind_eq_some_iff.mp h with ⟨m₁, hm₁, h⟩
    rcases Option.bind_eq_some_iff.mp h with ⟨m₂, hm₂, h⟩
    rcases Option.bind_eq_some_iff.mp h with ⟨m₃, hm₃, h⟩
    rcases Option.bind_eq_some_iff.mp h with ⟨node', _, h⟩
    have hkeys : m₃.nodes.keys = m.nodes.keys :=
      (keys_modify _ _ _ _ hm₃).trans
        ((keys_modify _ _ _ _ hm₂).trans (keys_modify _ _ _ _ hm₁))
    split at h
    · rcases Option.bind_eq_some_iff.mp h with ⟨m₄, hm₄, h⟩
      rcases Option.bind_eq_some_iff.mp h with ⟨l, hl, h⟩
      cases Option.some.inj h
      have hlength := addLength_length _ _ _ hl
      exact ⟨(keys_modify _ _ _ _ hm₄).trans hkeys, hlength⟩
    · rcases Option.bind_eq_some_iff.mp h with ⟨l, hl, h⟩
      cases Option.some.inj h
      have hlength := addLength_length _ _ _ hl
      exact ⟨hkeys, hlength⟩

theorem insertBefore_keys (list list' : Mlist) (base : Option Nat) (new : Nat) (m m' : Memory α)
    (h : insertBefore list base new m = some (list', m')) :
    m'.nodes.keys = m.nodes.keys ∧ list'.length = list.length + 1 := by
  rw [insertBefore] at h
  split at h
  · rcases Option.bind_eq_some_iff.mp h with ⟨l, hl, h⟩
    cases Option.some.inj h
    have hlength := addLength_length _ _ _ hl
    exact ⟨rfl, hlength⟩
  · rcases Option.bind_eq_some_iff.mp h with ⟨node, _, h⟩
    rcases Option.bind_eq_some_iff.mp h with ⟨m₁, hm₁, h⟩
    rcases Option.bind_eq_some_iff.mp h with ⟨m₂, hm₂, h⟩
    rcases Option.bind_eq_some_iff.mp h with ⟨m₃, hm₃, h⟩
    rcases Option.bind_eq_some_iff.mp h with ⟨node', _, h⟩
    have hkeys : m₃.nodes.keys = m.nodes.keys :=
      (keys_modify _ _ _ _ hm₃).trans
        ((keys_modify _ _ _ _ hm₂).trans (keys_modify _ _ _ _ hm₁))
    split at h
    · rcases Option.bind_eq_some_iff.mp h with ⟨m₄, hm₄, h⟩
      rcases Option.bind_eq_some_iff.mp h with ⟨l, hl, h⟩
      cases Option.some.inj h
      have hlength := addLength_length _ _ _ hl
      exact ⟨(keys_modify _ _ _ _ hm₄).trans hkeys, hlength⟩
    · rcases Option.bind_eq_some_iff.mp h with ⟨l, hl, h⟩
      cases Option.some.inj h
      have hlength := addLength_length _ _ _ hl
      exact ⟨hkeys, hlength⟩

theorem free_card (m m' : Memory α) (address : Nat) (h : m.free address = some m') :
    m'.nodes.keys.card + 1 = m.nodes.keys.card := by
  rw [Memory.free] at h
  split at h
  · rename_i cell hcell
    have hmem : address ∈ m.nodes.keys :=
      Finmap.mem_keys.mpr (Finmap.lookup_isSome.mp (Option.isSome_of_mem hcell))
    rw [← Option.some.inj h, Finmap.keys_erase]
    exact Finset.card_erase_add_one hmem
  · exact absurd h.symm (Option.some_ne_none _)

/-- A node is taken out of a list and freed. -/
theorem removeNode_saldo (list list' : Mlist) (address : Nat) (m m' : Memory α)
    (elem : Option α) (h : removeNode list address m = some (elem, list', m')) :
    saldo list' m' = saldo list m := by
  rcases Option.bind_eq_some_iff.mp h with ⟨node, _, h⟩
  rcases Option.bind_eq_some_iff.mp h with ⟨m₁, hm₁, h⟩
  rcases Option.bind_eq_some_iff.mp h with ⟨node₁, _, h⟩
  rcases Option.bind_eq_some_iff.mp h with ⟨m₂, hm₂, h⟩
  rcases Option.bind_eq_some_iff.mp h with ⟨node₂, _, h⟩
  rcases Option.bind_eq_some_iff.mp h with ⟨l, hl, h⟩
  rcases Option.bind_eq_some_iff.mp h with ⟨m₃, hm₃, h⟩
  cases Option.some.inj h
  have hkeys : m₂.nodes.keys = m.nodes.keys :=
    (keys_modifyIf _ _ _ _ hm₂).trans (keys_modifyIf _ _ _ _ hm₁)
  have hlength : list'.length = list.length - 1 := by
    rw [addLength_length _ _ _ hl, apply_ite Mlist.length, ite_self, apply_ite Mlist.length, ite_self]
    rfl
  have hcard := free_card _ _ _ hm₃
  rw [hkeys] at hcard
  rw [saldo, saldo, hlength]
  omega

/-- What every call of a loop keeps is kept by the loop. -/
theorem traverseLoop_kept (memory : σ → Memory α) (nodeFn : Option (σ → Nat → Option σ))
    (elemFn : Option (σ → Option α → Option σ)) (cond : Option (Option α → Bool))
    (reversed : Bool) (P : σ → Prop)
    (helem : ∀ s element s', P s → call elemFn s element = some s' → P s')
    (hnode : ∀ s address s', P s → call nodeFn s address = some s' → P s') (fuel : Nat)
    (node : Option Nat) (s s' : σ) (hs : P s)
    (h : traverseLoop memory nodeFn elemFn cond reversed fuel node s = some s') : P s' := by
  induction fuel generalizing node s with
  | zero => cases node with
    | none =>
        rw [traverseLoop_end] at h
        rwa [← Option.some.inj h]
    | some address => exact absurd h.symm (Option.some_ne_none _)
  | succ fuel ih => cases node with
    | none =>
        rw [traverseLoop_end] at h
        rwa [← Option.some.inj h]
    | some address =>
        rw [traverseLoop] at h
        rcases Option.bind_eq_some_iff.mp h with ⟨cell, _, h⟩
        rcases Option.bind_eq_some_iff.mp h with ⟨t, ht, h⟩
        refine ih _ t ?_ h
        rw [visit] at ht
        split at ht
        · rcases Option.bind_eq_some_iff.mp ht with ⟨u, hu, ht⟩
          exact hnode u address t (helem s cell.elem u hs hu) ht
        · rwa [← Option.some.inj ht]

theorem mlistPop_saldo (list list' : Mlist) (index : Int) (m m' : Memory α) (elem : Option α)
    (h : mlistPop list index m = some (elem, list', m')) : saldo list' m' = saldo list m := by
  rcases Option.bind_eq_some_iff.mp h with ⟨node, _, h⟩
  cases node with
  | none =>
      cases Option.some.inj h
      rfl
  | some address => exact removeNode_saldo _ _ _ _ _ _ h

theorem mlistReplace_keys (list : Mlist) (index : Int) (element elem : Option α)
    (m m' : Memory α) (h : mlistReplace list index element m = some (elem, m')) :
    m'.nodes.keys = m.nodes.keys := by
  rcases Option.bind_eq_some_iff.mp h with ⟨node, _, h⟩
  cases node with
  | none =>
      cases Option.some.inj h
      rfl
  | some address =>
      rcases Option.bind_eq_some_iff.mp h with ⟨cell, _, h⟩
      rcases Option.bind_eq_some_iff.mp h with ⟨m₁, hm₁, h⟩
      cases Option.some.inj h
      exact keys_modify _ _ _ _ hm₁

theorem mlistRemove_saldo (list : Mlist) (cond : Option α → Bool)
    (destroyer : Option (ω → Option α → ω)) (m : Memory α) (world : ω) (r : Removal α ω)
    (h : mlistRemove list cond destroyer m world = some r) :
    saldo r.list r.memory = saldo list m := by
  refine traverseLoop_kept Removal.memory _ _ _ _ (fun r => saldo r.list r.memory = saldo list m)
    ?_ ?_ _ _ _ r rfl h
  · intro s element s' hs hcall
    cases destroyer with
    | none => rwa [← Option.some.inj hcall]
    | some destroyer => rwa [← Option.some.inj hcall]
  · intro s address s' hs hcall
    rcases Option.bind_eq_some_iff.mp hcall with ⟨⟨elem, l, m'⟩, hremove, hcall⟩
    cases Option.some.inj hcall
    exact (removeNode_saldo _ _ _ _ _ _ hremove).trans hs

/-- All nodes of a list are freed. -/
theorem mlistClear_saldo (list list' : Mlist) (nodes : List (Nat × Option α))
    (destroyer : Option (ω → Option α → ω)) (m m' : Memory α) (world world' : ω)
    (hrep : Rep m list nodes) (h : mlistClear list destroyer m world = some (list', m', world')) :
    saldo list' m' = saldo list m := by
  rcases traverseNodes_rule Prod.fst (some freeNode)
    (destroyer.map fun destroyer (s : Memory α × ω) element =>
      some (s.1, destroyer s.2 element)) none false
    (fun done rest s => Clearing m nodes destroyer world done rest s ∧
      s.1.nodes.keys.card + done.length = m.nodes.keys.card)
    (fun done node rest s ⟨hs, hcard⟩ => by
      rcases clearing_round m nodes destroyer world done rest node s hs with ⟨s', hvisit, hs'⟩
      refine ⟨_, s', hs.linked.1, rfl, rfl, hvisit, hs', ?_⟩
      rw [visit, Option.all_none, if_pos rfl] at hvisit
      rcases Option.bind_eq_some_iff.mp hvisit with ⟨t, ht, hfree⟩
      rcases Option.bind_eq_some_iff.mp hfree with ⟨m₁, hm₁, hfree⟩
      have hsame : t.1 = s.1 := by
        cases destroyer with
        | none => rw [← Option.some.inj ht]
        | some destroyer => rw [← Option.some.inj ht]
      have hone := free_card _ _ _ hm₁
      rw [← Option.some.inj hfree, List.length_append, List.length_singleton]
      rw [hsame] at hone
      simp only []
      omega)
    m list nodes hrep (m, world)
    ⟨⟨hrep.linked, hrep.nodup, Local.refl _ _, (destroyAll_nil destroyer world).symm⟩, rfl⟩
    with ⟨s, hloop, _, hcard⟩
  rw [mlistClear, Option.bind_eq_bind, hloop, Option.bind_some] at h
  cases Option.some.inj h
  rw [saldo, saldo, hrep.length]
  rw [length_way] at hcard
  simp only []
  omega

section Malloc

variable (malloc : Nat → Finmap (fun _ : Nat => Node α) → Nat)

theorem createNode_card (hmalloc : ∀ n nodes, malloc n nodes ∉ nodes) (element : Option α)
    (m : Memory α) :
    (createNode malloc element m).2.nodes.keys.card = m.nodes.keys.card + 1 := by
  have hkeys : (createNode malloc element m).2.nodes.keys
      = insert (malloc m.mallocs m.nodes) m.nodes.keys := by
    ext a
    rw [Finmap.mem_keys, Finset.mem_insert, Finmap.mem_keys]
    exact Finmap.mem_insert
  rw [hkeys, Finset.card_insert_of_notMem]
  rw [Finmap.mem_keys]
  exact hmalloc m.mallocs m.nodes

theorem mlistAppend_saldo (hmalloc : ∀ n nodes, malloc n nodes ∉ nodes) (list list' : Mlist)
    (element : Option α) (m m' : Memory α)
    (h : mlistAppend malloc list element m = some (list', m')) :
    saldo list' m' = saldo list m := by
  have hcard := createNode_card malloc hmalloc element m
  have hinserted : m'.nodes.keys = (createNode malloc element m).2.nodes.keys ∧
      list'.length = list.length + 1 := insertAfter_keys _ _ _ _ _ _ h
  rw [saldo, saldo, hinserted.1, hinserted.2, hcard]
  omega

theorem mlistInsert_saldo (hmalloc : ∀ n nodes, malloc n nodes ∉ nodes) (list list' : Mlist)
    (index : Int) (element : Option α) (m m' : Memory α)
    (h : mlistInsert malloc list index element m = some (list', m')) :
    saldo list' m' = saldo list m := by
  have hcard := createNode_card malloc hmalloc element m
  rw [mlistInsert] at h
  split at h
  · cases Option.some.inj h
    rfl
  · have hinserted : m'.nodes.keys = (createNode malloc element m).2.nodes.keys ∧
        list'.length = list.length + 1 := by
      simp only [] at h
      split at h
      · split at h
        · exact insertBefore_keys _ _ _ _ _ _ h
        · rcases Option.bind_eq_some_iff.mp h with ⟨base, _, h⟩
          exact insertBefore_keys _ _ _ _ _ _ h
      · exact insertAfter_keys _ _ _ _ _ _ h
    rw [saldo, saldo, hinserted.1, hinserted.2, hcard]
    omega

/-- An operation changes the number of nodes and the length of its list by the same. -/
theorem step_saldo (hmalloc : ∀ n nodes, malloc n nodes ∉ nodes) (s t : Estado α ω)
    (nodes : List (Nat × Option α)) (hrep : Rep s.memory s.list nodes) (e : Operacion α ω)
    (h : s.step malloc e = some t) : saldo t.list t.memory = saldo s.list s.memory := by
  cases e with
  | append element =>
      rcases Option.bind_eq_some_iff.mp h with ⟨r, hr, h⟩
      cases Option.some.inj h
      exact mlistAppend_saldo malloc hmalloc _ _ _ _ _ hr
  | insert index element =>
      rcases Option.bind_eq_some_iff.mp h with ⟨r, hr, h⟩
      cases Option.some.inj h
      exact mlistInsert_saldo malloc hmalloc _ _ _ _ _ _ hr
  | pop index =>
      rcases Option.bind_eq_some_iff.mp h with ⟨r, hr, h⟩
      cases Option.some.inj h
      exact mlistPop_saldo _ _ _ _ _ _ hr
  | remove cond destroyer =>
      rcases Option.bind_eq_some_iff.mp h with ⟨r, hr, h⟩
      cases Option.some.inj h
      exact mlistRemove_saldo _ _ _ _ _ _ hr
  | replace index element =>
      rcases Option.bind_eq_some_iff.mp h with ⟨r, hr, h⟩
      cases Option.some.inj h
      rw [saldo, saldo, mlistReplace_keys _ _ _ _ _ _ hr]
  | clear destroyer =>
      rcases Option.bind_eq_some_iff.mp h with ⟨r, hr, h⟩
      cases Option.some.inj h
      exact mlistClear_saldo _ _ nodes _ _ _ _ _ hrep hr

/-- The list that a loop makes counts all the nodes that have come. -/
theorem traverse_saldo (hmalloc : ∀ n nodes, malloc n nodes ∉ nodes)
    (elemFn : Mlist × Memory α → Option α → Option (Mlist × Memory α))
    (helem : ∀ s x s', elemFn s x = some s' →
      s' = s ∨ ∃ y, mlistAppend malloc s.1 y s.2 = some s')
    (reversed : Bool) (m : Memory α) (list : Mlist) (s : Mlist × Memory α)
    (h : traverseNodes Prod.snd list none (some elemFn) none reversed (mlistCreate, m) = some s) :
    saldo s.1 s.2 = m.nodes.keys.card := by
  refine traverseLoop_kept Prod.snd none (some elemFn) none reversed
    (fun s => saldo s.1 s.2 = m.nodes.keys.card) ?_ ?_ _ _ _ s ?_ h
  · intro s x s' hs hcall
    rcases helem s x s' hcall with rfl | ⟨y, happend⟩
    · exact hs
    · exact (mlistAppend_saldo malloc hmalloc _ _ _ _ _ happend).trans hs
  · intro s a s' hs hcall
    rwa [← Option.some.inj hcall]
  · rw [saldo]
    exact Int.sub_zero _

end Malloc

/-! ### One list among others -/

theorem mem_cells (m : Memory α) (a : Nat) : a ∈ m.nodes.keys ↔ (m.heap a).isSome = true := by
  rw [Finmap.mem_keys]
  exact Finmap.lookup_isSome.symm

/-- A list that keeps its balance leaves no node behind. -/
theorem exact_saldo (m m' : Memory α) (list list' : Mlist) (nodes nodes' : List (Nat × Option α))
    (hrep : Rep m list nodes) (hrep' : Rep m' list' nodes')
    (hlocal : Local m.heap nodes m'.heap nodes') (hsaldo : saldo list' m' = saldo list m) :
    Exact m.heap nodes m'.heap nodes' := by
  refine exact_of_card m.heap m'.heap m.nodes.keys m'.nodes.keys nodes nodes' (mem_cells m)
    (mem_cells m') hrep.linked hrep'.linked hrep.nodup hrep'.nodup hlocal ?_
  rw [saldo, saldo, hrep.length, hrep'.length] at hsaldo
  omega

/-- The memory without the nodes of a list. -/
def Memory.without (m : Memory α) (nodes : List (Nat × Option α)) : Memory α :=
  { m with nodes := nodes.foldr (fun node cells => cells.erase node.1) m.nodes }

theorem without_heap (m : Memory α) (nodes : List (Nat × Option α)) (a : Nat) :
    (m.without nodes).heap a = if a ∈ addresses nodes then none else m.heap a := by
  induction nodes with
  | nil => rfl
  | cons node nodes ih =>
      rw [addresses_cons]
      by_cases ha : a = node.1
      · rw [ha, if_pos List.mem_cons_self]
        exact Finmap.lookup_erase _ _
      · refine (Finmap.lookup_erase_ne ha).trans ?_
        simp only [List.mem_cons, ha, false_or]
        exact ih

/-- What an operation has done to a list: the nodes it has now, and those it has not left
    behind. -/
structure Cambia (s : Estado α ω) (nodes : List (Nat × Option α)) (t : Estado α ω)
    (q : Secuencia α ω) : Prop where
  rep : ∃ nodes', Rep t.memory t.list nodes' ∧ nodes'.map Prod.snd = q.elems ∧
    Local s.memory.heap nodes t.memory.heap nodes' ∧ Exact s.memory.heap nodes t.memory.heap nodes'
  world : t.world = q.world
  result : t.result = q.result

/-- An operation on a list and on its sequence, for a list in a memory that has others. The
    nodes that are not of the list are those of a memory to which it has come. -/
theorem step_cambia (malloc : Nat → Finmap (fun _ : Nat => Node α) → Nat)
    (hmalloc : ∀ n nodes, malloc n nodes ∉ nodes) (s : Estado α ω)
    (nodes : List (Nat × Option α)) (hrep : Rep s.memory s.list nodes) (e : Operacion α ω) :
    Option.Rel (Cambia s nodes) (s.step malloc e)
      (Secuencia.step { elems := nodes.map Prod.snd, world := s.world, result := s.result } e) := by
  have hwithout := without_heap s.memory nodes
  -- The memory is taken to be one without the list to which the list has come.
  have hrel := simula_step malloc hmalloc (s.memory.without nodes) s
    { elems := nodes.map Prod.snd, world := s.world, result := s.result } e
    ⟨⟨nodes, hrep, rfl, fun a cell _ hcell => by
        rw [hwithout] at hcell
        split at hcell
        · exact absurd hcell.symm (Option.some_ne_none cell)
        · exact hcell,
      fun a ha => Or.inr (by rw [hwithout, if_pos ha])⟩, rfl, rfl⟩
  generalize hstep : s.step malloc e = made at hrel
  generalize Secuencia.step _ e = q at hrel
  cases hrel with
  | none => exact Option.Rel.none
  | @some t q h =>
      rcases h.rep with ⟨nodes', hrep', helems, hlocal⟩
      -- What is local to the list from there is so from the memory as it was.
      have hnear : Local s.memory.heap nodes t.memory.heap nodes' := by
        refine ⟨fun a cell ha hcell => ?_, fun a ha => ?_⟩
        · refine hlocal.keeps a cell List.not_mem_nil ?_
          rw [hwithout, if_neg ha]
          exact hcell
        · rcases hlocal.fresh a ha with hmem | hnone
          · exact absurd hmem List.not_mem_nil
          · rw [hwithout] at hnone
            split at hnone
            · rename_i hold
              exact Or.inl hold
            · exact Or.inr hnone
      exact Option.Rel.some ⟨⟨nodes', hrep', helems, hnear, exact_saldo _ _ _ _ _ _ hrep hrep' hnear
        (step_saldo malloc hmalloc s t nodes hrep e hstep)⟩, h.world, h.result⟩

/-- Each list is made of its own nodes, which have the elements of its sequence. -/
structure Reparte (m₀ : Memory α) (s : Programa α ω) (q : Familia α ω)
    (nodes : Nat → List (Nat × Option α)) : Prop where
  parcelled : Parcelled m₀.heap s.listas.memory.heap nodes
  used : ∀ a l, s.listas.lists.lookup a = some l →
    Rep s.listas.memory l (nodes a) ∧ q.seqs.lookup a = some ((nodes a).map Prod.snd)
  unused : ∀ a, s.listas.lists.lookup a = none → nodes a = [] ∧ q.seqs.lookup a = none
  world : s.world = q.world
  result : s.result = q.result

theorem reparte_init (m : Memory α) (world : ω) :
    Reparte m (Programa.init m world) (Familia.init world) fun _ => [] where
  parcelled := parcelled_start m.heap
  used := fun _ _ hl => absurd (hl.symm.trans (Finmap.lookup_empty _)) (Option.some_ne_none _)
  unused := fun _ _ => ⟨rfl, Finmap.lookup_empty _⟩
  world := rfl
  result := rfl

/-- The other lists are what they were. -/
theorem rep_other (m₀ m m' : Memory α) (nodes : Nat → List (Nat × Option α))
    (hp : Parcelled m₀.heap m.heap nodes) (a b : Nat) (hne : b ≠ a)
    (nodes' : List (Nat × Option α)) (hlocal : Local m.heap (nodes a) m'.heap nodes') (l : Mlist)
    (hrep : Rep m l (nodes b)) : Rep m' l (nodes b) :=
  ⟨hrep.head, hrep.tail, hrep.length, hrep.nodup,
    parcelled_linked m₀.heap m.heap m'.heap nodes hp a b hne nodes' hlocal, hrep.entero⟩

/-- One list changes, or comes. -/
theorem reparte_change (m₀ : Memory α) (s : Programa α ω) (q : Familia α ω)
    (nodes : Nat → List (Nat × Option α)) (h : Reparte m₀ s q nodes) (a : Nat) (l : Mlist)
    (m : Memory α) (nodes' : List (Nat × Option α)) (hrep : Rep m l nodes')
    (hlocal : Local s.listas.memory.heap (nodes a) m.heap nodes')
    (hexact : Exact s.listas.memory.heap (nodes a) m.heap nodes') (world : ω) (result : Option α) :
    Reparte m₀
      { listas := { lists := s.listas.lists.insert a l, memory := m }
        world := world
        result := result }
      { seqs := q.seqs.insert a (nodes'.map Prod.snd), world := world, result := result }
      (Function.update nodes a nodes') where
  parcelled := parcelled_change m₀.heap s.listas.memory.heap m.heap nodes h.parcelled a nodes' hlocal
    hexact hrep.linked
  used := by
    intro b lb hb
    by_cases hba : b = a
    · subst hba
      obtain rfl := Option.some.inj ((Finmap.lookup_insert _).symm.trans hb)
      rw [Function.update_self]
      exact ⟨hrep, Finmap.lookup_insert _⟩
    · rcases h.used b lb ((Finmap.lookup_insert_of_ne _ hba).symm.trans hb) with ⟨hb, hq⟩
      rw [Function.update_of_ne hba]
      exact ⟨rep_other m₀ _ m nodes h.parcelled a b hba nodes' hlocal lb hb,
        (Finmap.lookup_insert_of_ne _ hba).trans hq⟩
  unused := by
    intro b hb
    by_cases hba : b = a
    · subst hba
      exact absurd ((Finmap.lookup_insert _).symm.trans hb) (Option.some_ne_none _)
    · rcases h.unused b ((Finmap.lookup_insert_of_ne _ hba).symm.trans hb) with ⟨hempty, hq⟩
      rw [Function.update_of_ne hba]
      exact ⟨hempty, (Finmap.lookup_insert_of_ne _ hba).trans hq⟩
  world := rfl
  result := rfl

/-- A list and all of its nodes go. -/
theorem reparte_erase (m₀ : Memory α) (s : Programa α ω) (q : Familia α ω)
    (nodes : Nat → List (Nat × Option α)) (h : Reparte m₀ s q nodes) (a : Nat) (m : Memory α)
    (hlocal : Local s.listas.memory.heap (nodes a) m.heap [])
    (hexact : Exact s.listas.memory.heap (nodes a) m.heap []) (world : ω) :
    Reparte m₀
      { listas := { lists := s.listas.lists.erase a, memory := m }, world := world, result := none }
      { seqs := q.seqs.erase a, world := world, result := none }
      (Function.update nodes a []) where
  parcelled := parcelled_change m₀.heap s.listas.memory.heap m.heap nodes h.parcelled a [] hlocal
    hexact trivial
  used := by
    intro b lb hb
    by_cases hba : b = a
    · subst hba
      exact absurd (hb.symm.trans (Finmap.lookup_erase _ _)) (Option.some_ne_none _)
    · rcases h.used b lb ((Finmap.lookup_erase_ne hba).symm.trans hb) with ⟨hb, hq⟩
      rw [Function.update_of_ne hba]
      exact ⟨rep_other m₀ _ m nodes h.parcelled a b hba [] hlocal lb hb,
        (Finmap.lookup_erase_ne hba).trans hq⟩
  unused := by
    intro b hb
    by_cases hba : b = a
    · subst hba
      rw [Function.update_self]
      exact ⟨rfl, Finmap.lookup_erase _ _⟩
    · rcases h.unused b ((Finmap.lookup_erase_ne hba).symm.trans hb) with ⟨hempty, hq⟩
      rw [Function.update_of_ne hba]
      exact ⟨hempty, (Finmap.lookup_erase_ne hba).trans hq⟩
  world := rfl
  result := rfl

/-- What a run relates at every moment. -/
def Repartidas (m₀ : Memory α) (s : Programa α ω) (q : Familia α ω) : Prop :=
  ∃ nodes, Reparte m₀ s q nodes

/-- The list at an address and its sequence, or neither. -/
theorem reparte_lookup (m₀ : Memory α) (s : Programa α ω) (q : Familia α ω)
    (nodes : Nat → List (Nat × Option α)) (h : Reparte m₀ s q nodes) (a : Nat) :
    (s.listas.lists.lookup a = none ∧ q.seqs.lookup a = none ∧ nodes a = []) ∨
      ∃ l, s.listas.lists.lookup a = some l ∧ Rep s.listas.memory l (nodes a) ∧
        q.seqs.lookup a = some ((nodes a).map Prod.snd) := by
  cases hl : s.listas.lists.lookup a with
  | none =>
      rcases h.unused a hl with ⟨hempty, hq⟩
      exact Or.inl ⟨rfl, hq, hempty⟩
  | some l =>
      rcases h.used a l hl with ⟨hrep, hq⟩
      exact Or.inr ⟨l, rfl, hrep, hq⟩

/-- A list that has been made is put at an address. -/
theorem reparte_put (m₀ : Memory α) (s : Programa α ω) (q : Familia α ω)
    (nodes : Nat → List (Nat × Option α)) (h : Reparte m₀ s q nodes) (new : Nat)
    (made : Mlist × Memory α) (elems : List (Option α)) (hmade : Made s.listas.memory elems made)
    (hsaldo : saldo made.1 made.2 = s.listas.memory.nodes.keys.card) :
    Option.Rel (Repartidas m₀)
      ((s.listas.put new made.1 made.2).bind fun listas =>
        some { s with listas := listas, result := none })
      (q.put new elems) := by
  rcases hmade with ⟨nodes', hrep, helems, hlocal⟩
  rcases reparte_lookup m₀ s q nodes h new with ⟨hl, hq, hempty⟩ | ⟨l, hl, _, hq⟩
  · have hexact := exact_saldo s.listas.memory made.2 mlistCreate made.1 [] nodes'
      (rep_create s.listas.memory) hrep hlocal (hsaldo.trans (Int.sub_zero _).symm)
    rw [← hempty] at hlocal hexact
    have hput := reparte_change m₀ s q nodes h new made.1 made.2 nodes' hrep hlocal hexact s.world
      none
    simp only [Listas.put, Familia.put, hl, hq, Option.bind_some]
    refine Option.Rel.some ⟨Function.update nodes new nodes', ?_⟩
    rw [← helems, ← h.world]
    exact hput
  · simp only [Listas.put, Familia.put, hl, hq, Option.bind_none]
    exact Option.Rel.none

/-- A function that makes a list from another one. -/
theorem reparte_make (m₀ : Memory α) (s : Programa α ω) (q : Familia α ω)
    (nodes : Nat → List (Nat × Option α)) (h : Reparte m₀ s q nodes) (list new : Nat)
    (f : Mlist → Memory α → Option (Mlist × Memory α)) (g : List (Option α) → List (Option α))
    (hf : ∀ l, Rep s.listas.memory l (nodes list) → ∃ made, f l s.listas.memory = some made ∧
      Made s.listas.memory (g ((nodes list).map Prod.snd)) made ∧
      saldo made.1 made.2 = s.listas.memory.nodes.keys.card) :
    Option.Rel (Repartidas m₀) (s.make list new f)
      ((q.seqs.lookup list).bind fun elems => q.put new (g elems)) := by
  rcases reparte_lookup m₀ s q nodes h list with ⟨hl, hq, _⟩ | ⟨l, hl, hrep, hq⟩
  · simp only [Programa.make, hl, hq, Option.bind_eq_bind, Option.bind_none]
    exact Option.Rel.none
  · rcases hf l hrep with ⟨made, hmade, helems, hsaldo⟩
    simp only [Programa.make, hl, hq, hmade, Option.bind_eq_bind, Option.bind_some]
    exact reparte_put m₀ s q nodes h new made _ helems hsaldo

theorem mlistTraverse_spec (m : Memory α) (list : Mlist) (nodes : List (Nat × Option α))
    (routine : ω → Option α → ω) (world : ω) (hrep : Rep m list nodes) :
    mlistTraverse list routine m world = some ((nodes.map Prod.snd).foldl routine world) := by
  rcases traverseNodes_rule (fun _ => m) none
    (some fun world element => some (routine world element)) none false
    (fun done rest w => way nodes false = done ++ rest ∧
      w = (done.map Prod.snd).foldl routine world)
    (fun done node rest w ⟨hsplit, hw⟩ => by
      rcases rep_way m list nodes hrep false done rest node hsplit with ⟨cell, hcell, helem, hnext⟩
      refine ⟨cell, routine w node.2, hcell, helem, hnext, visit_elem _ _ _ w, ?_, ?_⟩
      · rw [hsplit, List.append_assoc, List.singleton_append]
      · rw [List.map_append, List.foldl_append, ← hw]
        rfl)
    m list nodes hrep world ⟨rfl, rfl⟩ with ⟨w, hloop, _, hw⟩
  rw [mlistTraverse, hloop, hw]
  rfl

section Malloc

variable (malloc : Nat → Finmap (fun _ : Nat => Node α) → Nat)

/-- The loop of a function that makes a list. -/
theorem traverse_makes (hmalloc : ∀ n nodes, malloc n nodes ∉ nodes)
    (f : Option α → Option (Option α))
    (elemFn : Mlist × Memory α → Option α → Option (Mlist × Memory α))
    (hsome : ∀ s x y, f x = some y → elemFn s x = mlistAppend malloc s.1 y s.2)
    (hnone : ∀ s x, f x = none → elemFn s x = some s) (reversed : Bool) (m : Memory α)
    (list : Mlist) (nodes : List (Nat × Option α)) (hrep : Rep m list nodes) :
    ∃ s, traverseNodes Prod.snd list none (some elemFn) none reversed (mlistCreate, m) = some s ∧
      Made m (((way nodes reversed).map Prod.snd).filterMap f) s ∧
      saldo s.1 s.2 = m.nodes.keys.card := by
  rcases traverse_made malloc hmalloc f elemFn hsome hnone reversed m list nodes hrep
    with ⟨s, hloop, hmade⟩
  refine ⟨s, hloop, hmade, traverse_saldo malloc hmalloc elemFn ?_ reversed m list s hloop⟩
  intro s x s' helem
  cases hf : f x with
  | none =>
      rw [hnone s x hf] at helem
      exact Or.inl (Option.some.inj helem).symm
  | some y =>
      rw [hsome s x y hf] at helem
      exact Or.inr ⟨y, helem⟩

/-- The functions that append something for each element. -/
theorem traverse_maps (hmalloc : ∀ n nodes, malloc n nodes ∉ nodes) (f : Option α → Option α)
    (reversed : Bool) (m : Memory α) (list : Mlist) (nodes : List (Nat × Option α))
    (hrep : Rep m list nodes) :
    ∃ s, traverseNodes Prod.snd list none
        (some fun s element => mlistAppend malloc s.1 (f element) s.2) none reversed
        (mlistCreate, m) = some s ∧
      Made m (((way nodes reversed).map Prod.snd).map f) s ∧
      saldo s.1 s.2 = m.nodes.keys.card := by
  rcases traverse_makes malloc hmalloc (some ∘ f)
    (fun s element => mlistAppend malloc s.1 (f element) s.2)
    (fun s x y hy => by rw [← Option.some.inj hy])
    (fun s x hx => absurd hx (Option.some_ne_none _)) reversed m list nodes hrep
    with ⟨s, hloop, hmade, hsaldo⟩
  rw [List.filterMap_eq_map] at hmade
  exact ⟨s, hloop, hmade, hsaldo⟩

theorem mlistFilter_makes (hmalloc : ∀ n nodes, malloc n nodes ∉ nodes) (cond : Option α → Bool)
    (m : Memory α) (list : Mlist) (nodes : List (Nat × Option α)) (hrep : Rep m list nodes) :
    ∃ s, mlistFilter malloc list cond m = some s ∧
      Made m ((nodes.map Prod.snd).filter cond) s ∧ saldo s.1 s.2 = m.nodes.keys.card := by
  rcases traverse_makes malloc hmalloc (Option.guard cond)
    (fun s element => if cond element then mlistAppend malloc s.1 element s.2 else some s)
    (fun s x y hy => by
      rw [Option.guard_eq_some_iff] at hy
      rw [← hy.1, if_pos hy.2])
    (fun s x hx => by
      rw [Option.guard_eq_none_iff] at hx
      rw [if_neg (ne_true_of_eq_false hx)])
    false m list nodes hrep with ⟨s, hloop, hmade, hsaldo⟩
  rw [List.filterMap_eq_filter] at hmade
  exact ⟨s, hloop, hmade, hsaldo⟩

/-! ### A list that is extended -/

/-- The list that grows keeps its balance. -/
theorem extend_saldo (hmalloc : ∀ n nodes, malloc n nodes ∉ nodes) (fuel list other : Nat)
    (s t : Listas α) (l : Mlist) (hl : s.lists.lookup list = some l)
    (h : mlistExtend malloc fuel list other s = some t) :
    ∃ l', t.lists.lookup list = some l' ∧ saldo l' t.memory = saldo l s.memory := by
  rcases Option.bind_eq_some_iff.mp h with ⟨o, _, hloop⟩
  refine traverseLoop_kept Listas.memory none (some (Listas.routine malloc list)) none false
    (fun t => ∃ l', t.lists.lookup list = some l' ∧ saldo l' t.memory = saldo l s.memory)
    ?_ ?_ _ _ s t ⟨l, hl, rfl⟩ hloop
  · rintro u element u' ⟨l', hl', hsaldo⟩ hcall
    rcases Option.bind_eq_some_iff.mp hcall with ⟨l₁, hl₁, hrest⟩
    rcases Option.bind_eq_some_iff.mp hrest with ⟨⟨l₂, m⟩, happend, hlast⟩
    cases Option.some.inj (hl'.symm.trans hl₁)
    cases Option.some.inj hlast
    exact ⟨l₂, Finmap.lookup_insert _,
      (mlistAppend_saldo malloc hmalloc _ _ _ _ _ happend).trans hsaldo⟩
  · intro u a u' hu hcall
    rwa [← Option.some.inj hcall]

/-- A list that is extended by one with which it shares no node, or by itself if it has one
    node. -/
theorem extend_extending (hmalloc : ∀ n nodes, malloc n nodes ∉ nodes) (s : Listas α)
    (list other : Nat) (nodes others : List (Nat × Option α)) (hlist : s.Has list nodes)
    (hother : s.Has other others)
    (hapart : (∀ a ∈ addresses others, a ∉ addresses nodes) ∨ ∃ node, nodes = [node] ∧ others = [node])
    (hentero : nodes.length + others.length < 2 ^ 31) :
    ∃ t, mlistExtend malloc others.length list other s = some t ∧
      Extending s list nodes others t := by
  rw [mlistExtend_eq malloc _ list other s others hother]
  rcases hapart with hapart | ⟨node, rfl, rfl⟩
  · rcases traverseLoop_rule Listas.memory none (some (Listas.routine malloc list)) none false
      (fun done rest t => others = done ++ rest ∧ Extending s list nodes done t)
      (fun done node rest t ⟨hsplit, ht⟩ => by
        rw [hsplit] at hother hapart hentero
        rw [List.length_append, List.length_cons] at hentero
        rcases extending_round malloc hmalloc s t list nodes done node ht (by omega)
          with ⟨t', hroutine, ht'⟩
        refine ⟨_, t', extending_cell s t list other nodes done rest node ht hother hapart, rfl,
          rfl, (visit_elem _ _ _ t).trans hroutine, ?_, ht'⟩
        rw [hsplit, List.append_assoc, List.singleton_append])
      [] others s ⟨rfl, extending_start s list nodes hlist⟩ with ⟨t, hloop, _, ht⟩
    exact ⟨t, hloop, ht⟩
  · rcases extending_round malloc hmalloc s s list [node] [] node (extending_start s list _ hlist)
      hentero with ⟨t, hroutine, ht⟩
    refine ⟨t, ?_, ht⟩
    rw [List.length_singleton, first_cons,
      extendLoop_succ malloc list 0 node.1 s _ (has_cell s list [] [] node hlist), hroutine]
    exact traverseLoop_end Listas.memory none (some (Listas.routine malloc list)) none false 0 t

theorem reparte_extend (hmalloc : ∀ n nodes, malloc n nodes ∉ nodes) (m₀ : Memory α)
    (s : Programa α ω) (q : Familia α ω) (nodes : Nat → List (Nat × Option α))
    (h : Reparte m₀ s q nodes) (list other : Nat) :
    Option.Rel (Repartidas m₀) (s.step malloc (.extend list other))
      (q.step (.extend list other)) := by
  rcases reparte_lookup m₀ s q nodes h other with ⟨ho, hq, _⟩ | ⟨o, ho, hrepo, hqo⟩
  · simp only [Programa.step, Familia.step, ho, hq, Option.bind_eq_bind, Option.bind_none]
    exact Option.Rel.none
  rcases reparte_lookup m₀ s q nodes h list with ⟨hl, hq, _⟩ | ⟨l, hl, hrep, hq⟩
  · simp only [Programa.step, Familia.step, ho, hqo, hl, hq, Option.bind_eq_bind, Option.bind_none,
      Option.bind_some]
    exact Option.Rel.none
  have hlist : s.listas.Has list (nodes list) := ⟨l, hl, hrep⟩
  have hother : s.listas.Has other (nodes other) := ⟨o, ho, hrepo⟩
  have hfuel : o.length.toNat = (nodes other).length := by
    rw [hrepo.length]
    rfl
  simp only [Programa.step, Familia.step, ho, hqo, hl, hq, hfuel, Option.bind_eq_bind,
    Option.bind_some, List.length_map]
  -- A list is not extended by itself unless it has at most one node, and not beyond an `int`.
  by_cases hbad : other = list ∧ 2 ≤ (nodes list).length ∨
      ¬ (nodes list).length + (nodes other).length < 2 ^ 31
  · have hnone : mlistExtend malloc (nodes other).length list other s.listas = none := by
      by_cases hsame : other = list
      · subst hsame
        exact shared_none malloc hmalloc s.listas other other _ hlist hother (by omega) _
      · exact apart_none malloc hmalloc s.listas list other _ _ hlist hother
          (h.parcelled.apart other list hsame) (by omega) _
    rw [if_pos hbad, hnone]
    exact Option.Rel.none
  · have hapart : (∀ a ∈ addresses (nodes other), a ∉ addresses (nodes list)) ∨
        ∃ node, nodes list = [node] ∧ nodes other = [node] := by
      by_cases hsame : other = list
      · subst hsame
        rcases hnodes : nodes other with _ | ⟨node, _ | ⟨next, rest⟩⟩
        · exact Or.inl fun _ _ => List.not_mem_nil
        · exact Or.inr ⟨node, rfl, rfl⟩
        · rw [hnodes, List.length_cons, List.length_cons] at hbad
          omega
      · exact Or.inl (h.parcelled.apart other list hsame)
    rcases extend_extending malloc hmalloc s.listas list other _ _ hlist hother hapart (by omega)
      with ⟨t, hextend, ht⟩
    rcases ht.grown with ⟨made, ⟨l', hl', hrep'⟩, helems, hlocal⟩
    rcases extend_saldo malloc hmalloc _ list other s.listas t l hl hextend with ⟨l₁, hl₁, hsaldo⟩
    cases Option.some.inj (hl'.symm.trans hl₁)
    -- Only the header of the list that is extended has been written.
    have hlists : t.lists = s.listas.lists.insert list l' := by
      refine Finmap.ext_lookup fun a => ?_
      by_cases ha : a = list
      · rw [ha, hl', Finmap.lookup_insert]
      · rw [ht.kept a ha, Finmap.lookup_insert_of_ne _ ha]
    have hchange := reparte_change m₀ s q nodes h list l' t.memory made hrep' hlocal
      (exact_saldo _ _ _ _ _ _ hrep hrep' hlocal hsaldo) s.world none
    rw [if_neg hbad, hextend]
    refine Option.Rel.some ⟨Function.update nodes list made, ?_⟩
    rw [← hlists, helems, h.world] at hchange
    rw [h.world]
    exact hchange

/-! ### Runs -/

/-- A call does to the sequences what it does to the lists. -/
theorem reparte_step (hmalloc : ∀ n nodes, malloc n nodes ∉ nodes) (m₀ : Memory α)
    (s : Programa α ω) (q : Familia α ω) (e : Llamada α ω) (h : Repartidas m₀ s q) :
    Option.Rel (Repartidas m₀) (s.step malloc e) (q.step e) := by
  rcases h with ⟨nodes, h⟩
  cases e with
  | create new =>
      exact reparte_put m₀ s q nodes h new (mlistCreate, s.listas.memory) [] (made_create _)
        (Int.sub_zero _)
  | change list e =>
      rcases reparte_lookup m₀ s q nodes h list with ⟨hl, hq, _⟩ | ⟨l, hl, hrep, hq⟩
      · simp only [Programa.step, Familia.step, hl, hq, Option.bind_eq_bind, Option.bind_none]
        exact Option.Rel.none
      · -- The operation sees one list and the memory, and keeps to the cells of that list.
        have hstep : Option.Rel (Cambia (s.estado l) (nodes list)) ((s.estado l).step malloc e)
            (Secuencia.step
              { elems := (nodes list).map Prod.snd, world := q.world, result := q.result } e) := by
          rw [← h.world, ← h.result]
          exact step_cambia malloc hmalloc (s.estado l) (nodes list) hrep e
        simp only [Programa.step, Familia.step, hl, hq, Option.bind_eq_bind, Option.bind_some]
        generalize (s.estado l).step malloc e = t at hstep
        generalize Secuencia.step _ e = u at hstep
        cases hstep with
        | none => exact Option.Rel.none
        | @some t u ht =>
            rcases ht.rep with ⟨nodes', hrep', helems, hlocal, hexact⟩
            have hchange := reparte_change m₀ s q nodes h list t.list t.memory nodes' hrep' hlocal
              hexact t.world t.result
            rw [helems] at hchange
            refine Option.Rel.some ⟨Function.update nodes list nodes', ?_⟩
            rw [← ht.world, ← ht.result]
            exact hchange
  | traverse list routine =>
      rcases reparte_lookup m₀ s q nodes h list with ⟨hl, hq, _⟩ | ⟨l, hl, hrep, hq⟩
      · simp only [Programa.step, Familia.step, hl, hq, Option.bind_eq_bind, Option.bind_none]
        exact Option.Rel.none
      · simp only [Programa.step, Familia.step, hl, hq, Option.bind_eq_bind, Option.bind_some,
          mlistTraverse_spec _ l _ routine s.world hrep]
        rw [h.world]
        exact Option.Rel.some ⟨nodes, h.parcelled, h.used, h.unused, rfl, rfl⟩
  | extend list other => exact reparte_extend malloc hmalloc m₀ s q nodes h list other
  | copy list new =>
      refine reparte_make m₀ s q nodes h list new (mlistCopy malloc) id fun l hrep => ?_
      have hmakes := traverse_maps malloc hmalloc id false s.listas.memory l _ hrep
      rw [List.map_id] at hmakes
      exact hmakes
  | reverse list new =>
      refine reparte_make m₀ s q nodes h list new (mlistReverse malloc) List.reverse fun l hrep => ?_
      have hmakes := traverse_maps malloc hmalloc id true s.listas.memory l _ hrep
      rw [List.map_id, way, if_pos rfl, List.map_reverse] at hmakes
      exact hmakes
  | filter list new cond =>
      exact reparte_make m₀ s q nodes h list new (fun l m => mlistFilter malloc l cond m)
        (List.filter cond) fun l hrep => mlistFilter_makes malloc hmalloc cond _ l _ hrep
  | map list new f =>
      exact reparte_make m₀ s q nodes h list new (fun l m => mlistMap malloc l f m) (List.map f)
        fun l hrep => traverse_maps malloc hmalloc f false _ l _ hrep
  | destroy list destroyer =>
      rcases reparte_lookup m₀ s q nodes h list with ⟨hl, hq, _⟩ | ⟨l, hl, hrep, hq⟩
      · simp only [Programa.step, Familia.step, mlistDestroy, hl, hq, Option.bind_eq_bind,
          Option.bind_none]
        exact Option.Rel.none
      · -- The cells of the list are given back, and then its header.
        rcases mlistClear_spec s.listas.memory l (nodes list) destroyer s.world hrep
          with ⟨l', m', hclear, hrep', hlocal⟩
        have hexact := exact_saldo _ _ _ _ _ _ hrep hrep' hlocal
          (mlistClear_saldo l l' (nodes list) destroyer _ _ _ _ hrep hclear)
        simp only [Programa.step, Familia.step, mlistDestroy, hl, hq, hclear, Option.bind_eq_bind,
          Option.bind_some]
        rw [h.world]
        exact Option.Rel.some ⟨_, reparte_erase m₀ s q nodes h list m' hlocal hexact _⟩

end Malloc

/-- What the functions say about lists that hold sequences: about each one what they say about
    one list, and that the nodes which have come are those of the lists in use, each in one of
    them. -/
structure Sostiene (malloc : Nat → Finmap (fun _ : Nat => Node α) → Nat) (m₀ : Memory α)
    (s : Programa α ω) (q : Familia α ω) : Prop where
  lists : ∀ a, (s.listas.lists.lookup a).isSome = (q.seqs.lookup a).isSome
  holds : ∀ a l elems, s.listas.lists.lookup a = some l → q.seqs.lookup a = some elems →
    Holds malloc m₀ (s.estado l) { elems := elems, world := q.world, result := q.result }
  nodes : ∃ nodes : Nat → List (Nat × Option α),
    (∀ a l, s.listas.lists.lookup a = some l → WellFormed s.listas.memory l (nodes a)) ∧
    (∀ a b, a ≠ b → ∀ x ∈ addresses (nodes a), x ∉ addresses (nodes b)) ∧
    ∀ x, (s.listas.memory.heap x).isSome = true ↔ (m₀.heap x).isSome = true ∨
      ∃ a l, s.listas.lists.lookup a = some l ∧ x ∈ addresses (nodes a)
  freed : q.seqs = ∅ → s.listas.memory.heap = m₀.heap

theorem sostiene_of_reparte (malloc : Nat → Finmap (fun _ : Nat => Node α) → Nat)
    (hmalloc : ∀ n nodes, malloc n nodes ∉ nodes) (m₀ : Memory α) (s : Programa α ω)
    (q : Familia α ω) (h : Repartidas m₀ s q) : Sostiene malloc m₀ s q := by
  rcases h with ⟨nodes, h⟩
  -- Who has a node is a list in use.
  have howner : ∀ a x, x ∈ addresses (nodes a) → ∃ l, s.listas.lists.lookup a = some l := by
    intro a x hx
    rcases reparte_lookup m₀ s q nodes h a with ⟨_, _, hempty⟩ | ⟨l, hl, _, _⟩
    · rw [hempty] at hx
      exact absurd hx List.not_mem_nil
    · exact ⟨l, hl⟩
  refine ⟨?_, ?_, ⟨nodes, ?_, h.parcelled.apart, ?_⟩, ?_⟩
  · intro a
    rcases reparte_lookup m₀ s q nodes h a with ⟨hl, hq, _⟩ | ⟨l, hl, _, hq⟩
    all_goals
      rw [hl, hq]
      rfl
  · intro a l elems hl hq
    rcases h.used a l hl with ⟨hrep, hq'⟩
    refine holds_of_simula malloc hmalloc m₀ (s.estado l) _
      ⟨⟨nodes a, hrep, ?_, parcelled_local _ _ nodes h.parcelled a⟩, h.world, h.result⟩
    exact Option.some.inj (hq'.symm.trans hq)
  · intro a l hl
    exact wellFormed_of_rep s.listas.memory l (nodes a) (h.used a l hl).1
  · intro x
    constructor
    · intro hx
      rcases h.parcelled.exact x hx with hold | ⟨a, ha⟩
      · exact Or.inl hold
      · rcases howner a x ha with ⟨l, hl⟩
        exact Or.inr ⟨a, l, hl, ha⟩
    · rintro (hold | ⟨a, l, hl, ha⟩)
      · rcases Option.isSome_iff_exists.mp hold with ⟨cell, hcell⟩
        exact Option.isSome_iff_exists.mpr ⟨cell, h.parcelled.others x cell hcell⟩
      · exact isSome_of_linked _ none none (nodes a) (h.parcelled.linked a) x ha
  · intro hempty
    refine parcelled_free m₀.heap s.listas.memory.heap nodes h.parcelled fun a => ?_
    rcases reparte_lookup m₀ s q nodes h a with ⟨_, _, hnodes⟩ | ⟨l, _, _, hq⟩
    · exact hnodes
    · rw [hempty, Finmap.lookup_empty] at hq
      exact absurd hq.symm (Option.some_ne_none _)

/-- After any calls on any lists each list holds its sequence, no node is of two lists, and no
    node has been lost: those that have come are those of the lists in use, and when all lists
    are destroyed the memory is what it was. No call goes through a node that has been freed,
    because the lists have a result whenever the sequences have one. -/
theorem lists_refine (malloc : Nat → Finmap (fun _ : Nat => Node α) → Nat)
    (hmalloc : ∀ n nodes, malloc n nodes ∉ nodes) (m : Memory α) (world : ω)
    (llamadas : List (Llamada α ω)) :
    Option.Rel (Sostiene malloc m) (run (Programa.step malloc) (Programa.init m world) llamadas)
      (run Familia.step (Familia.init world) llamadas) := by
  refine rel_mono (Repartidas m) (Sostiene malloc m) (sostiene_of_reparte malloc hmalloc m) _ _ ?_
  exact run_rel (Programa.step malloc) Familia.step (Repartidas m)
    (fun s q e h => reparte_step malloc hmalloc m s q e h) _ _ llamadas
    ⟨fun _ => [], reparte_init m world⟩

/-- Two numbers, copied and put after themselves, of which the first copy is filtered into a
    third list; then the lists are destroyed. -/
def sampleLlamadas : List (Llamada Nat Unit) :=
  [.create 0, .change 0 (.append (some 1)), .change 0 (.append (some 2)), .copy 0 1, .extend 1 0,
    .filter 1 2 (fun x => x == some 1), .destroy 0 none, .change 2 (.pop 0), .destroy 1 none,
    .destroy 2 none]

theorem sampleLlamadas_freed : ∃ s,
    run (Programa.step sampleMalloc) (Programa.init ⟨∅, 0⟩ ()) sampleLlamadas = some s ∧
      s.listas.memory.heap = Memory.heap ⟨∅, 0⟩ := by
  have hrun : (run Familia.step (Familia.init ()) sampleLlamadas).map (fun q => q.seqs) = some ∅ := by
    rfl
  have hrel := lists_refine sampleMalloc sampleMalloc_fresh ⟨∅, 0⟩ () sampleLlamadas
  generalize run (Programa.step sampleMalloc) _ sampleLlamadas = s at hrel
  generalize run Familia.step (Familia.init ()) sampleLlamadas = q at hrun hrel
  cases hrel with
  | none => exact absurd hrun.symm (Option.some_ne_none _)
  | some h => exact ⟨_, rfl, h.freed (Option.some.inj hrun)⟩

end Common

end Esther
