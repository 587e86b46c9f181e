import Esther.Theory.Mlist
import Mathlib.Order.Lattice.Nat

/-!
# Lists as Sequences

What a list of the common library is for: it holds a sequence of elements.

A function that changes a list does to its sequence what the operation of that name does. An
index that is not one of the list changes nothing and returns null. The length of a list is
an `int`, and a sequence that is longer than one can count has no list.

## Main definitions

* `Secuencia`, `Secuencia.step`: A sequence, and what the operations do to it.
* `WellFormed`: A list goes through its nodes in both directions.
* `Holds`: What the functions say about a list that holds a sequence.

## Theorems

* `simula_step`: An operation on the list and on the sequence.
* `mlist_refines`: A list holds its sequence after every run.
-/

namespace Esther

namespace Common

open Chain Transition

variable {α ω : Type}

/-- A sequence, with the world and what the last operation has returned. -/
structure Secuencia (α ω : Type) where
  elems : List (Option α)
  world : ω
  result : Option α
deriving DecidableEq

def Secuencia.init (world : ω) : Secuencia α ω := { elems := [], world := world, result := none }

/-- A longer sequence, if its length is an `int`. -/
def Secuencia.grow (s : Secuencia α ω) (elems : List (Option α)) : Option (Secuencia α ω) :=
  if fitsInt elems.length then some { s with elems := elems, result := none } else none

/-- An operation on a sequence. -/
def Secuencia.step (s : Secuencia α ω) : Operacion α ω → Option (Secuencia α ω)
  | .append element => s.grow (s.elems ++ [element])
  | .insert index element =>
      if 0 ≤ index ∧ index ≤ s.elems.length then s.grow (s.elems.insertIdx index.toNat element)
      else some { s with result := none }
  | .pop index =>
      if 0 ≤ index ∧ index < s.elems.length then
        some { s with
          elems := s.elems.eraseIdx index.toNat
          result := s.elems[index.toNat]?.join }
      else some { s with result := none }
  | .remove cond destroyer =>
      some {
        elems := s.elems.filter fun x => !cond x
        world := destroyAll destroyer s.world (s.elems.filter cond)
        result := (s.elems.filter cond).getLast?.join }
  | .replace index element =>
      if 0 ≤ index ∧ index < s.elems.length then
        some { s with
          elems := s.elems.set index.toNat element
          result := s.elems[index.toNat]?.join }
      else some { s with result := none }
  | .clear destroyer =>
      some { elems := [], world := destroyAll destroyer s.world s.elems, result := none }

/-- The links go through the nodes of a list, each once, from the head to the tail and from
    the tail to the head, and end there. -/
structure WellFormed (m : Memory α) (list : Mlist) (nodes : List (Nat × Option α)) : Prop where
  length : list.length = nodes.length
  head : list.head = nodes.head?.map Prod.fst
  tail : list.tail = nodes.getLast?.map Prod.fst
  nodup : (addresses nodes).Nodup
  forward : walk Cell.next m.heap nodes.length list.head = some nodes
  backward : walk Cell.prev m.heap nodes.length list.tail = some nodes.reverse

/-- A list is well formed and has the elements. -/
def HasElems (m : Memory α) (list : Mlist) (elems : List (Option α)) : Prop :=
  ∃ nodes, WellFormed m list nodes ∧ nodes.map Prod.snd = elems

/-- A function makes a list of some elements from another one, which it leaves as it is, with
    all nodes there are. -/
structure Makes (m : Memory α) (source : Mlist) (sourceElems : List (Option α))
    (made : Option (Mlist × Memory α)) (elems : List (Option α)) : Prop where
  made : ∃ list m', made = some (list, m') ∧ HasElems m' list elems ∧
    HasElems m' source sourceElems ∧ ∀ a cell, m.heap a = some cell → m'.heap a = some cell

/-- What the functions say about a list that holds a sequence, in a memory in which there
    were some nodes of others. -/
structure Holds (malloc : Nat → Finmap (fun _ : Nat => Node α) → Nat) (m₀ : Memory α)
    (s : Estado α ω) (q : Secuencia α ω) : Prop where
  elems : HasElems s.memory s.list q.elems
  result : s.result = q.result
  world : s.world = q.world
  get : ∀ index : Int, mlistGet s.list index s.memory
    = some (if 0 ≤ index then q.elems[index.toNat]?.join else none)
  first : mlistFirst s.list s.memory = some q.elems.head?.join
  last : mlistLast s.list s.memory = some q.elems.getLast?.join
  length : mlistLength s.list = q.elems.length
  empty : mlistEmpty s.list = q.elems.isEmpty
  index : ∀ cond, mlistIndex s.list cond s.memory
    = some (if q.elems.any cond then (q.elems.findIdx cond : Int) else -1)
  find : ∀ cond, mlistFind s.list cond s.memory = some (q.elems.find? cond).join
  count : ∀ cond, mlistCount s.list cond s.memory = some (q.elems.countP cond : Int)
  copy : Makes s.memory s.list q.elems (mlistCopy malloc s.list s.memory) q.elems
  map : ∀ f, Makes s.memory s.list q.elems (mlistMap malloc s.list f s.memory) (q.elems.map f)
  filter : ∀ cond, Makes s.memory s.list q.elems (mlistFilter malloc s.list cond s.memory)
    (q.elems.filter cond)
  reverse : Makes s.memory s.list q.elems (mlistReverse malloc s.list s.memory) q.elems.reverse
  others : ∀ a cell, m₀.heap a = some cell → s.memory.heap a = some cell

/-- The list is made of nodes with the elements of the sequence, none of which were there
    before the list. -/
structure Simula (m₀ : Memory α) (s : Estado α ω) (q : Secuencia α ω) : Prop where
  rep : ∃ nodes, Rep s.memory s.list nodes ∧ nodes.map Prod.snd = q.elems ∧
    Local m₀.heap [] s.memory.heap nodes
  world : s.world = q.world
  result : s.result = q.result

/-- The list is as long as its sequence. -/
theorem simula_length (m₀ : Memory α) (s : Estado α ω) (q : Secuencia α ω) (h : Simula m₀ s q) :
    s.list.length = q.elems.length := by
  rcases h.rep with ⟨nodes, hrep, hnodes, _⟩
  rw [hrep.length, ← hnodes, List.length_map]

theorem wellFormed_of_rep (m : Memory α) (list : Mlist) (nodes : List (Nat × Option α))
    (hrep : Rep m list nodes) : WellFormed m list nodes := by
  have hforward := walk_next m.heap none nodes hrep.linked
  have hbackward := walk_prev m.heap none nodes hrep.linked
  rw [← hrep.head] at hforward
  rw [← hrep.tail] at hbackward
  refine ⟨hrep.length, ?_, ?_, hrep.nodup, hforward, hbackward⟩
  · rw [hrep.head, first_eq]
  · rw [hrep.tail, ← first_reverse, first_eq, List.head?_reverse]

theorem makes_of_made (m : Memory α) (source : Mlist) (nodes : List (Nat × Option α))
    (hrep : Rep m source nodes) (made : Option (Mlist × Memory α)) (elems : List (Option α))
    (h : ∃ s, made = some s ∧ Made m elems s) :
    Makes m source (nodes.map Prod.snd) made elems := by
  rcases h with ⟨s, hmade, new, hnew, helems, hlocal⟩
  have hkept := linked_of_local m.heap s.2.heap [] new hlocal none none nodes
    (fun _ _ => List.not_mem_nil) hrep.linked
  have hsource : Rep s.2 source nodes :=
    ⟨hrep.head, hrep.tail, hrep.length, hrep.nodup, hkept, hrep.entero⟩
  exact ⟨s.1, s.2, hmade, ⟨new, wellFormed_of_rep s.2 s.1 new hnew, helems⟩,
    ⟨nodes, wellFormed_of_rep s.2 source nodes hsource, rfl⟩,
    fun a cell hcell => hlocal.keeps a cell List.not_mem_nil hcell⟩

/-- Each element is appended to a new list, or something in its place. -/
theorem makes_map (malloc : Nat → Finmap (fun _ : Nat => Node α) → Nat)
    (hmalloc : ∀ n nodes, malloc n nodes ∉ nodes) (f : Option α → Option α) (reversed : Bool)
    (m : Memory α) (list : Mlist) (nodes : List (Nat × Option α)) (hrep : Rep m list nodes) :
    Makes m list (nodes.map Prod.snd) (traverseNodes Prod.snd list none
        (some fun s element => mlistAppend malloc s.1 (f element) s.2) none reversed (mlistCreate, m))
      (((way nodes reversed).map Prod.snd).map f) := by
  refine makes_of_made m list nodes hrep _ _ ?_
  rcases traverse_made malloc hmalloc (some ∘ f)
    (fun s element => mlistAppend malloc s.1 (f element) s.2)
    (fun s x y hy => by rw [← Option.some.inj hy])
    (fun s x hx => absurd hx (by simp only [Function.comp_apply, reduceCtorEq, not_false_eq_true]))
    reversed m list nodes hrep with ⟨made, hmade, helems⟩
  rw [List.filterMap_eq_map] at helems
  exact ⟨made, hmade, helems⟩

/-- The elements that meet a condition are appended to a new list. -/
theorem makes_filter (malloc : Nat → Finmap (fun _ : Nat => Node α) → Nat)
    (hmalloc : ∀ n nodes, malloc n nodes ∉ nodes) (cond : Option α → Bool) (m : Memory α)
    (list : Mlist) (nodes : List (Nat × Option α)) (hrep : Rep m list nodes) :
    Makes m list (nodes.map Prod.snd) (mlistFilter malloc list cond m)
      ((nodes.map Prod.snd).filter cond) := by
  refine makes_of_made m list nodes hrep _ _ ?_
  rcases traverse_made malloc hmalloc (Option.guard cond)
    (fun s element => if cond element then mlistAppend malloc s.1 element s.2 else some s)
    (fun s x y hy => by
      rw [Option.guard_eq_some_iff] at hy
      rw [← hy.1, if_pos hy.2])
    (fun s x hx => by
      rw [Option.guard_eq_none_iff] at hx
      rw [if_neg (ne_true_of_eq_false hx)])
    false m list nodes hrep with ⟨made, hmade, helems⟩
  rw [List.filterMap_eq_filter] at helems
  exact ⟨made, hmade, helems⟩

/-- A list that is made of the elements of a sequence holds it. -/
theorem holds_of_simula (malloc : Nat → Finmap (fun _ : Nat => Node α) → Nat)
    (hmalloc : ∀ n nodes, malloc n nodes ∉ nodes) (m₀ : Memory α) (s : Estado α ω)
    (q : Secuencia α ω) (h : Simula m₀ s q) : Holds malloc m₀ s q := by
  rcases h.rep with ⟨nodes, hrep, helems, hlocal⟩
  have hcopy := makes_map malloc hmalloc id false s.memory s.list nodes hrep
  have hreverse := makes_map malloc hmalloc id true s.memory s.list nodes hrep
  rw [List.map_id] at hcopy hreverse
  rw [way, if_pos rfl, List.map_reverse] at hreverse
  refine
    { elems := ⟨nodes, wellFormed_of_rep _ _ nodes hrep, helems⟩
      result := h.result
      world := h.world
      get := ?_, first := ?_, last := ?_, length := ?_, empty := ?_
      index := ?_, find := ?_, count := ?_
      copy := ?_, map := ?_, filter := ?_, reverse := ?_
      others := fun a cell hcell => hlocal.keeps a cell List.not_mem_nil hcell }
  all_goals rw [← helems]
  · intro index
    exact mlistGet_spec s.memory s.list nodes hrep index
  · exact mlistFirst_spec s.memory s.list nodes hrep
  · exact mlistLast_spec s.memory s.list nodes hrep
  · rw [mlistLength, hrep.length, List.length_map]
  · rw [mlistEmpty, hrep.length]
    cases nodes <;> rfl
  · intro cond
    exact mlistIndex_spec s.memory s.list nodes cond hrep
  · intro cond
    exact mlistFind_spec s.memory s.list nodes cond hrep
  · intro cond
    exact mlistCount_spec s.memory s.list nodes cond hrep
  · exact hcopy
  · intro f
    exact makes_map malloc hmalloc f false s.memory s.list nodes hrep
  · intro cond
    exact makes_filter malloc hmalloc cond s.memory s.list nodes hrep
  · exact hreverse

/-! ### Operations -/

theorem insertIdx_eq_take_drop {β : Type} (xs : List β) (i : Nat) (x : β) (h : i ≤ xs.length) :
    xs.insertIdx i x = xs.take i ++ x :: xs.drop i := by
  induction i generalizing xs with
  | zero => rfl
  | succ i ih => cases xs with
    | nil => exact absurd h (Nat.not_succ_le_zero i)
    | cons y xs =>
        rw [List.insertIdx_succ_cons, ih xs (Nat.le_of_succ_le_succ h)]
        rfl

/-- An operation that changes nothing. -/
theorem simula_same (m₀ : Memory α) (s : Estado α ω) (q : Secuencia α ω) (h : Simula m₀ s q) :
    Option.Rel (Simula m₀) (some { s with result := none }) (some { q with result := none }) :=
  Option.Rel.some ⟨h.rep, h.world, rfl⟩

/-- A list grows with its sequence, or neither can. -/
theorem simula_grow (m₀ : Memory α) (s : Estado α ω) (q : Secuencia α ω) (h : Simula m₀ s q)
    (made : Option (Mlist × Memory α)) (elems : List (Option α))
    (helems : elems.length = q.elems.length + 1)
    (hsome : fitsInt (s.list.length + 1) = true → ∀ nodes, Rep s.memory s.list nodes →
      nodes.map Prod.snd = q.elems → ∃ list' m' nodes', made = some (list', m') ∧
        Rep m' list' nodes' ∧ nodes'.map Prod.snd = elems ∧
        Local s.memory.heap nodes m'.heap nodes')
    (hnone : fitsInt (s.list.length + 1) = false → made = none) :
    Option.Rel (Simula m₀)
      (made.bind fun r => some { s with list := r.1, memory := r.2, result := none })
      (q.grow elems) := by
  rcases h.rep with ⟨nodes, hrep, hnodes, hlocal⟩
  have hlength : s.list.length + 1 = elems.length := by
    rw [simula_length m₀ s q h, helems]
    rfl
  rw [Secuencia.grow, ← hlength]
  cases hentero : fitsInt (s.list.length + 1) with
  | true =>
      rcases hsome hentero nodes hrep hnodes with ⟨list', m', nodes', rfl, hrep', hnodes', hlocal'⟩
      exact Option.Rel.some
        ⟨⟨nodes', hrep', hnodes', Local.trans _ _ _ _ _ _ hlocal hlocal'⟩, h.world, rfl⟩
  | false =>
      rw [hnone hentero, if_neg Bool.false_ne_true]
      exact Option.Rel.none

theorem simula_append (malloc : Nat → Finmap (fun _ : Nat => Node α) → Nat)
    (hmalloc : ∀ n nodes, malloc n nodes ∉ nodes) (m₀ : Memory α) (s : Estado α ω)
    (q : Secuencia α ω) (element : Option α) (h : Simula m₀ s q) :
    Option.Rel (Simula m₀) (s.step malloc (.append element)) (q.step (.append element)) := by
  refine simula_grow m₀ s q h (mlistAppend malloc s.list element s.memory)
    (q.elems ++ [element]) (List.length_append) (fun hentero nodes hrep hnodes => ?_)
    (mlistAppend_none malloc s.memory s.list element)
  rcases mlistAppend_spec malloc hmalloc s.memory s.list nodes element hrep hentero
    with ⟨new, list', m', happend, hrep', hlocal'⟩
  refine ⟨list', m', _, happend, hrep', ?_, hlocal'⟩
  rw [List.map_append, hnodes]
  rfl

theorem simula_insert (malloc : Nat → Finmap (fun _ : Nat => Node α) → Nat)
    (hmalloc : ∀ n nodes, malloc n nodes ∉ nodes) (m₀ : Memory α) (s : Estado α ω)
    (q : Secuencia α ω) (index : Int) (element : Option α) (h : Simula m₀ s q) :
    Option.Rel (Simula m₀) (s.step malloc (.insert index element))
      (q.step (.insert index element)) := by
  have hlength := simula_length m₀ s q h
  simp only [Secuencia.step]
  by_cases hindex : 0 ≤ index ∧ index ≤ q.elems.length
  · rw [if_pos hindex]
    refine simula_grow m₀ s q h (mlistInsert malloc s.list index element s.memory) _ ?_
      (fun hentero nodes hrep hnodes => ?_)
      (fun hentero => mlistInsert_none malloc s.memory s.list index element (by omega) hentero)
    · rw [List.length_insertIdx, if_pos (by omega)]
    · have hnat : ((index.toNat : Nat) : Int) = index := Int.toNat_of_nonneg hindex.1
      have hle : index.toNat ≤ nodes.length := by
        rw [← List.length_map Prod.snd, hnodes]
        omega
      rcases mlistInsert_spec malloc hmalloc s.memory s.list nodes index.toNat element hrep hle
        hentero with ⟨new, list', m', hinsert, hrep', hlocal'⟩
      rw [hnat] at hinsert
      refine ⟨list', m', _, hinsert, hrep', ?_, hlocal'⟩
      rw [List.map_append, List.map_cons, List.map_take, List.map_drop, hnodes,
        insertIdx_eq_take_drop _ _ _ (by omega)]
  · rw [if_neg hindex]
    have hsame : mlistInsert malloc s.list index element s.memory = some (s.list, s.memory) := by
      rw [mlistInsert, if_pos (by omega)]
    simp only [Estado.step, hsame]
    exact simula_same m₀ s q h

/-- The node at an index and the elements around it. -/
theorem split_at (nodes : List (Nat × Option α)) (elems : List (Option α))
    (hnodes : nodes.map Prod.snd = elems) (index : Int) (hindex : 0 ≤ index ∧ index < elems.length) :
    ∃ xs node ys, nodes = xs ++ node :: ys ∧ (xs.length : Int) = index ∧
      elems[index.toNat]?.join = node.2 ∧ xs.map Prod.snd = elems.take index.toNat ∧
      ys.map Prod.snd = elems.drop (index.toNat + 1) := by
  have hlt : index.toNat < nodes.length := by
    rw [← List.length_map Prod.snd, hnodes]
    omega
  refine ⟨nodes.take index.toNat, nodes[index.toNat], nodes.drop (index.toNat + 1), ?_, ?_, ?_, ?_, ?_⟩
  · rw [List.getElem_cons_drop, List.take_append_drop]
  · rw [List.length_take, Nat.min_eq_left (Nat.le_of_lt hlt), Int.toNat_of_nonneg hindex.1]
  · rw [← hnodes, List.getElem?_map, List.getElem?_eq_getElem hlt]
    rfl
  · rw [← hnodes, List.map_take]
  · rw [← hnodes, List.map_drop]

theorem simula_pop (malloc : Nat → Finmap (fun _ : Nat => Node α) → Nat) (m₀ : Memory α)
    (s : Estado α ω) (q : Secuencia α ω) (index : Int) (h : Simula m₀ s q) :
    Option.Rel (Simula m₀) (s.step malloc (.pop index)) (q.step (.pop index)) := by
  rcases h.rep with ⟨nodes, hrep, hnodes, hlocal⟩
  have hlength := simula_length m₀ s q h
  simp only [Secuencia.step]
  by_cases hindex : 0 ≤ index ∧ index < q.elems.length
  · rcases split_at nodes q.elems hnodes index hindex
      with ⟨xs, node, ys, rfl, hxs, hget, hbefore, hafter⟩
    rcases mlistPop_spec s.memory s.list xs ys node hrep with ⟨list', m', hpop, hrep', hlocal'⟩
    rw [hxs] at hpop
    rw [if_pos hindex]
    simp only [Estado.step, hpop, hget]
    refine Option.Rel.some ⟨⟨xs ++ ys, hrep', ?_, Local.trans _ _ _ _ _ _ hlocal hlocal'⟩, h.world,
      rfl⟩
    rw [List.map_append, hbefore, hafter, List.eraseIdx_eq_take_drop_succ]
  · have hsame : mlistPop s.list index s.memory = some (none, s.list, s.memory) := by
      rw [mlistPop, getNode_out s.memory s.list index (by omega)]
      rfl
    rw [if_neg hindex]
    simp only [Estado.step, hsame]
    exact simula_same m₀ s q h

theorem simula_replace (malloc : Nat → Finmap (fun _ : Nat => Node α) → Nat) (m₀ : Memory α)
    (s : Estado α ω) (q : Secuencia α ω) (index : Int) (element : Option α) (h : Simula m₀ s q) :
    Option.Rel (Simula m₀) (s.step malloc (.replace index element))
      (q.step (.replace index element)) := by
  rcases h.rep with ⟨nodes, hrep, hnodes, hlocal⟩
  have hlength := simula_length m₀ s q h
  simp only [Secuencia.step]
  by_cases hindex : 0 ≤ index ∧ index < q.elems.length
  · rcases split_at nodes q.elems hnodes index hindex
      with ⟨xs, node, ys, rfl, hxs, hget, hbefore, hafter⟩
    rcases mlistReplace_spec s.memory s.list xs ys node element hrep
      with ⟨m', hreplace, hrep', hlocal'⟩
    rw [hxs] at hreplace
    rw [if_pos hindex]
    simp only [Estado.step, hreplace, hget]
    refine Option.Rel.some ⟨⟨_, hrep', ?_, Local.trans _ _ _ _ _ _ hlocal hlocal'⟩, h.world, rfl⟩
    rw [List.map_append, List.map_cons, hbefore, hafter,
      List.set_eq_take_append_cons_drop, if_pos (by omega)]
  · have hsame : mlistReplace s.list index element s.memory = some (none, s.memory) := by
      rw [mlistReplace, getNode_out s.memory s.list index (by omega)]
      rfl
    rw [if_neg hindex]
    simp only [Estado.step, hsame]
    exact simula_same m₀ s q h

theorem simula_remove (malloc : Nat → Finmap (fun _ : Nat => Node α) → Nat) (m₀ : Memory α)
    (s : Estado α ω) (q : Secuencia α ω) (cond : Option α → Bool)
    (destroyer : Option (ω → Option α → ω)) (h : Simula m₀ s q) :
    Option.Rel (Simula m₀) (s.step malloc (.remove cond destroyer))
      (q.step (.remove cond destroyer)) := by
  rcases h.rep with ⟨nodes, hrep, hnodes, hlocal⟩
  rcases mlistRemove_spec s.memory s.list nodes cond destroyer s.world hrep
    with ⟨r, kept, hremove, hr⟩
  have hrep' := hr.rep
  have hnear := hr.near
  have helem := hr.elem
  have hworld := hr.world
  rw [List.append_nil] at hrep' hnear
  rw [hnodes] at helem hworld
  simp only [Estado.step, Secuencia.step, hremove]
  refine Option.Rel.some ⟨⟨kept, hrep', ?_, Local.trans _ _ _ _ _ _ hlocal hnear⟩, ?_, helem⟩
  · rw [hr.elems, hnodes]
  · rw [hworld, h.world]

theorem simula_clear (malloc : Nat → Finmap (fun _ : Nat => Node α) → Nat) (m₀ : Memory α)
    (s : Estado α ω) (q : Secuencia α ω) (destroyer : Option (ω → Option α → ω))
    (h : Simula m₀ s q) :
    Option.Rel (Simula m₀) (s.step malloc (.clear destroyer)) (q.step (.clear destroyer)) := by
  rcases h.rep with ⟨nodes, hrep, hnodes, hlocal⟩
  rcases mlistClear_spec s.memory s.list nodes destroyer s.world hrep
    with ⟨list', m', hclear, hrep', hlocal'⟩
  rw [hnodes, h.world] at hclear
  simp only [Estado.step, Secuencia.step, h.world, hclear]
  exact Option.Rel.some ⟨⟨[], hrep', rfl, Local.trans _ _ _ _ _ _ hlocal hlocal'⟩, rfl, rfl⟩

/-- An operation on a list does to its sequence what it says. -/
theorem simula_step (malloc : Nat → Finmap (fun _ : Nat => Node α) → Nat)
    (hmalloc : ∀ n nodes, malloc n nodes ∉ nodes) (m₀ : Memory α) (s : Estado α ω)
    (q : Secuencia α ω) (e : Operacion α ω) (h : Simula m₀ s q) :
    Option.Rel (Simula m₀) (s.step malloc e) (q.step e) := by
  cases e with
  | append element => exact simula_append malloc hmalloc m₀ s q element h
  | insert index element => exact simula_insert malloc hmalloc m₀ s q index element h
  | pop index => exact simula_pop malloc m₀ s q index h
  | remove cond destroyer => exact simula_remove malloc m₀ s q cond destroyer h
  | replace index element => exact simula_replace malloc m₀ s q index element h
  | clear destroyer => exact simula_clear malloc m₀ s q destroyer h

theorem rel_mono {β γ : Type} (R R' : β → γ → Prop) (hR : ∀ b c, R b c → R' b c) (x : Option β)
    (y : Option γ) (h : Option.Rel R x y) : Option.Rel R' x y := by
  cases h with
  | some h => exact Option.Rel.some (hR _ _ h)
  | none => exact Option.Rel.none

/-- After any operations on a new list it holds the sequence that they make, wherever the
    allocator puts its nodes and whatever else there is in the memory. A run that makes the
    sequence longer than an `int` can count has no result, and so for the list. -/
theorem mlist_refines (malloc : Nat → Finmap (fun _ : Nat => Node α) → Nat)
    (hmalloc : ∀ n nodes, malloc n nodes ∉ nodes) (m : Memory α) (world : ω)
    (operaciones : List (Operacion α ω)) :
    Option.Rel (Holds malloc m) (run (Estado.step malloc) (Estado.init m world) operaciones)
      (run Secuencia.step (Secuencia.init world) operaciones) := by
  refine rel_mono (Simula m) (Holds malloc m) (holds_of_simula malloc hmalloc m) _ _ ?_
  refine run_rel (Estado.step malloc) Secuencia.step (Simula m)
    (fun s q e h => simula_step malloc hmalloc m s q e h) _ _ operaciones ⟨?_, rfl, rfl⟩
  exact ⟨[], rep_create m, rfl, Local.refl m.heap []⟩

/-- An allocator that takes the address after the last one. -/
def sampleMalloc (_ : Nat) (nodes : Finmap fun _ : Nat => Node Nat) : Nat := nodes.keys.sup id + 1

theorem sampleMalloc_fresh (n : Nat) (nodes : Finmap fun _ : Nat => Node Nat) :
    sampleMalloc n nodes ∉ nodes := by
  intro hmem
  have hle : sampleMalloc n nodes ≤ nodes.keys.sup id :=
    Finset.le_sup (f := id) (Finmap.mem_keys.mpr hmem)
  exact absurd hle (Nat.not_succ_le_self _)

/-- Four numbers, one of them put in the middle, of which the odd ones are removed. -/
def sampleOperaciones : List (Operacion Nat (List (Option Nat))) :=
  [.append (some 1), .append (some 2), .append (some 4), .insert 2 (some 3),
    .remove (fun x => x.any fun n => n % 2 == 1) (some fun world x => world ++ [x])]

theorem sampleOperaciones_holds : ∃ s,
    run (Estado.step sampleMalloc) (Estado.init ⟨∅, 0⟩ []) sampleOperaciones = some s ∧
      Holds sampleMalloc ⟨∅, 0⟩ s
        { elems := [some 2, some 4], world := [some 1, some 3], result := some 3 } := by
  have hrun : run Secuencia.step (Secuencia.init []) sampleOperaciones
      = some { elems := [some 2, some 4], world := [some 1, some 3], result := some 3 } := by
    decide
  have hrel := mlist_refines sampleMalloc sampleMalloc_fresh ⟨∅, 0⟩ [] sampleOperaciones
  rw [hrun] at hrel
  revert hrel
  cases run (Estado.step sampleMalloc) (Estado.init ⟨∅, 0⟩ []) sampleOperaciones with
  | none => exact fun hrel => nomatch hrel
  | some s => exact fun hrel => ⟨s, rfl, match hrel with | .some h => h⟩

end Common

end Esther
