import Esther.Theory.Queries

/-!
# Extending a List

A list to which the elements of another one are appended, or its own.

`mlist_extend` goes through the nodes of one list and appends to the other. The next node is
found before an element is appended, and so the loop follows the nodes as they were, except
where the node it is at is the last one of the list that grows. A list of one element is
extended by itself: the loop has found null before the node gets a successor. In a longer one
the last node has a successor when the loop comes to it, and from there the loop stays behind
the nodes it appends itself. It makes rounds until the length is no longer an `int`.

## Main definitions

* `Listas.Has`: The nodes of the list at an address.
* `Extended`, `Extends`: What `mlist_extend` is for.
* `Extensible`: Lists that have no node in common, or one list of one element.
* `extendLoop`: The loop of `mlist_extend`.
* `Extending`: The list that has grown by some elements.
* `Following`, `Chasing`: Where the loop is, in the other list or behind its own nodes.

## Theorems

* `routine_spec`, `routine_none`: An element that is appended.
* `extendLoop_rounds`: Rounds of the loop, one after another.
* `apart_extends`, `apart_none`: Lists without common nodes.
* `single_extends`: A list of one element, and itself.
* `shared_rounds`: How the loop stays behind the nodes it appends.
* `shared_none`, `shared_extends`: Lists that share their nodes.
* `mlistExtend_iff`: The lists `mlist_extend` is right for.
* `self_goes_on`: A list of two elements, and itself.
-/

namespace Esther

namespace Common

open Chain

variable {α : Type}

/-- The list at an address is made of some nodes. -/
def Listas.Has (s : Listas α) (address : Nat) (nodes : List (Nat × Option α)) : Prop :=
  ∃ l, s.lists.lookup address = some l ∧ Rep s.memory l nodes

/-- `list` has its elements and then those of `other`, which is what it was unless it is
    `list`. -/
structure Extended (list other : Nat) (nodes others : List (Nat × Option α))
    (s s' : Listas α) : Prop where
  grown : ∃ nodes', s'.Has list nodes' ∧
    nodes'.map Prod.snd = nodes.map Prod.snd ++ others.map Prod.snd
  kept : other ≠ list → s'.lists.lookup other = s.lists.lookup other ∧ s'.Has other others

/-- `mlist_extend` returns and has extended the list. -/
def Extends (malloc : Nat → Finmap (fun _ : Nat => Node α) → Nat) (list other : Nat)
    (nodes others : List (Nat × Option α)) (s : Listas α) : Prop :=
  ∃ fuel s', mlistExtend malloc fuel list other s = some s' ∧
    Extended list other nodes others s s'

/-- An `int` can count the elements of both, and they have no node in common or are one list
    of one element. -/
structure Extensible (list other : Nat) (nodes others : List (Nat × Option α)) : Prop where
  entero : nodes.length + others.length < 2 ^ 31
  apart : (∀ a ∈ addresses others, a ∉ addresses nodes) ∨ other = list ∧ nodes.length = 1

/-- The loop of `mlist_extend`, from a node on. -/
def extendLoop (malloc : Nat → Finmap (fun _ : Nat => Node α) → Nat) (list fuel : Nat)
    (node : Option Nat) (s : Listas α) : Option (Listas α) :=
  traverseLoop Listas.memory none (some (Listas.routine malloc list)) none false fuel node s

/-! ### One element -/

theorem has_length (s : Listas α) (address : Nat) (nodes : List (Nat × Option α))
    (h : s.Has address nodes) : nodes.length < 2 ^ 31 := by
  rcases h with ⟨l, _, hrep⟩
  have hentero := (fitsInt_iff _).mp hrep.entero
  rw [hrep.length] at hentero
  omega

/-- A node of a list, with those before and after it. -/
theorem has_cell (s : Listas α) (address : Nat) (xs ys : List (Nat × Option α))
    (node : Nat × Option α) (h : s.Has address (xs ++ node :: ys)) :
    s.memory.heap node.1
      = some { prev := last xs none, next := first ys none, elem := node.2 } := by
  rcases h with ⟨l, _, hrep⟩
  exact linked_middle s.memory.heap none none xs ys node.1 node.2 hrep.linked

section Malloc

variable (malloc : Nat → Finmap (fun _ : Nat => Node α) → Nat)

theorem routine_spec (hmalloc : ∀ n nodes, malloc n nodes ∉ nodes) (s : Listas α) (list : Nat)
    (nodes : List (Nat × Option α)) (element : Option α) (h : s.Has list nodes)
    (hentero : nodes.length + 1 < 2 ^ 31) :
    ∃ new s', Listas.routine malloc list s element = some s' ∧
      s'.Has list (nodes ++ [(new, element)]) ∧
      Local s.memory.heap nodes s'.memory.heap (nodes ++ [(new, element)]) ∧
      ∀ address, address ≠ list → s'.lists.lookup address = s.lists.lookup address := by
  rcases h with ⟨l, hl, hrep⟩
  have hfits : fitsInt (l.length + 1) = true := by
    rw [fitsInt_iff, hrep.length]
    omega
  rcases mlistAppend_spec malloc hmalloc s.memory l nodes element hrep hfits
    with ⟨new, l', m', happend, hrep', hlocal⟩
  refine ⟨new, { lists := s.lists.insert list l', memory := m' }, ?_, ?_, hlocal, ?_⟩
  · simp only [Listas.routine, hl, happend, Option.bind_eq_bind, Option.bind_some]
  · exact ⟨l', Finmap.lookup_insert _, hrep'⟩
  · intro address hne
    exact Finmap.lookup_insert_of_ne _ hne

theorem routine_none (s : Listas α) (list : Nat) (nodes : List (Nat × Option α))
    (element : Option α) (h : s.Has list nodes) (hentero : nodes.length + 1 = 2 ^ 31) :
    Listas.routine malloc list s element = none := by
  rcases h with ⟨l, hl, hrep⟩
  have hfits : fitsInt (l.length + 1) = false := by
    rw [Bool.eq_false_iff, Ne, fitsInt_iff, hrep.length]
    omega
  simp only [Listas.routine, hl, mlistAppend_none malloc s.memory l element hfits,
    Option.bind_eq_bind, Option.bind_some, Option.bind_none]

/-! ### Rounds -/

theorem mlistExtend_eq (fuel list other : Nat) (s : Listas α) (others : List (Nat × Option α))
    (h : s.Has other others) :
    mlistExtend malloc fuel list other s
      = extendLoop malloc list fuel (first others none) s := by
  rcases h with ⟨o, ho, hrep⟩
  rw [mlistExtend, ho, ← hrep.head]
  rfl

theorem extendLoop_succ (list fuel address : Nat) (s : Listas α) (cell : Node α)
    (hcell : s.memory.heap address = some cell) :
    extendLoop malloc list (fuel + 1) (some address) s
      = (Listas.routine malloc list s cell.elem).bind
          (extendLoop malloc list fuel cell.next) := by
  rw [extendLoop, traverseLoop]
  simp only [hcell, visit_elem, Option.bind_eq_bind, Option.bind_some, Bool.false_eq_true,
    if_false]
  rfl

/-- Rounds that each find another node, one after another. What they keep speaks of their
    number and of the node the loop is at. -/
theorem extendLoop_rounds (list n : Nat) (Inv : Nat → Nat → Listas α → Prop)
    (hround : ∀ k address s, k < n → Inv k address s → ∃ next s',
      (∀ fuel, extendLoop malloc list (fuel + 1) (some address) s
        = extendLoop malloc list fuel (some next) s') ∧ Inv (k + 1) next s')
    (address : Nat) (s : Listas α) (hs : Inv 0 address s) (k : Nat) (hk : k ≤ n) :
    ∃ address' s', (∀ fuel, extendLoop malloc list (fuel + k) (some address) s
      = extendLoop malloc list fuel (some address') s') ∧ Inv k address' s' := by
  induction k with
  | zero => exact ⟨address, s, fun _ => rfl, hs⟩
  | succ k ih =>
      rcases ih (Nat.le_of_succ_le hk) with ⟨address', s', hloop, hinv⟩
      rcases hround k address' s' hk hinv with ⟨next, t, hnext, ht⟩
      refine ⟨next, t, ?_, ht⟩
      intro fuel
      rw [← hnext fuel, ← hloop (fuel + 1), Nat.add_assoc, Nat.add_comm 1 k]

/-- A loop that always finds another node, until the length is no `int`, does not return. -/
theorem extendLoop_none (list n : Nat) (Inv : Nat → Nat → Listas α → Prop)
    (hround : ∀ k address s, k < n → Inv k address s → ∃ next s',
      (∀ fuel, extendLoop malloc list (fuel + 1) (some address) s
        = extendLoop malloc list fuel (some next) s') ∧ Inv (k + 1) next s')
    (hlast : ∀ address s, Inv n address s → ∀ fuel,
      extendLoop malloc list (fuel + 1) (some address) s = none)
    (address : Nat) (s : Listas α) (hs : Inv 0 address s) (fuel : Nat) :
    extendLoop malloc list fuel (some address) s = none := by
  by_cases hfuel : fuel ≤ n
  · rcases extendLoop_rounds malloc list n Inv hround address s hs fuel hfuel
      with ⟨address', s', hloop, _⟩
    rw [← Nat.zero_add fuel, hloop 0]
    rfl
  · rcases extendLoop_rounds malloc list n Inv hround address s hs n (Nat.le_refl n)
      with ⟨address', s', hloop, hinv⟩
    rw [show fuel = fuel - (n + 1) + 1 + n by omega, hloop]
    exact hlast address' s' hinv _

end Malloc

/-! ### Lists without common nodes -/

/-- The list has grown by some elements. Where it has no nodes, the memory is what it was. -/
structure Extending (s₀ : Listas α) (list : Nat) (nodes done : List (Nat × Option α))
    (s : Listas α) : Prop where
  grown : ∃ made, s.Has list made ∧
    made.map Prod.snd = nodes.map Prod.snd ++ done.map Prod.snd ∧
    Local s₀.memory.heap nodes s.memory.heap made
  kept : ∀ address, address ≠ list → s.lists.lookup address = s₀.lists.lookup address

theorem extending_start (s : Listas α) (list : Nat) (nodes : List (Nat × Option α))
    (h : s.Has list nodes) : Extending s list nodes [] s :=
  ⟨⟨nodes, h, (List.append_nil _).symm, Local.refl _ _⟩, fun _ _ => rfl⟩

/-- A list that has no node in common with the one that has grown. -/
theorem extending_has (s₀ s : Listas α) (list other : Nat)
    (nodes others done : List (Nat × Option α)) (h : Extending s₀ list nodes done s)
    (hother : s₀.Has other others) (hapart : ∀ a ∈ addresses others, a ∉ addresses nodes)
    (hne : other ≠ list) : s.Has other others := by
  rcases h.grown with ⟨made, _, _, hlocal⟩
  rcases hother with ⟨o, ho, hrep⟩
  have hkept := linked_of_local _ _ nodes made hlocal none none others hapart hrep.linked
  exact ⟨o, (h.kept other hne).trans ho,
    hrep.head, hrep.tail, hrep.length, hrep.nodup, hkept, hrep.entero⟩

/-- The node the loop is at is as it was, also if the two pointers are the same. -/
theorem extending_cell (s₀ s : Listas α) (list other : Nat)
    (nodes done rest : List (Nat × Option α)) (node : Nat × Option α)
    (h : Extending s₀ list nodes done s) (hother : s₀.Has other (done ++ node :: rest))
    (hapart : ∀ a ∈ addresses (done ++ node :: rest), a ∉ addresses nodes) :
    s.memory.heap node.1
      = some { prev := last done none, next := first rest none, elem := node.2 } := by
  rcases h.grown with ⟨made, _, _, hlocal⟩
  refine hlocal.keeps node.1 _ (hapart node.1 ?_) (has_cell s₀ other done rest node hother)
  rw [addresses_append]
  exact List.mem_append_right _ List.mem_cons_self

theorem extending_length (nodes done made : List (Nat × Option α))
    (h : made.map Prod.snd = nodes.map Prod.snd ++ done.map Prod.snd) :
    made.length = nodes.length + done.length := by
  have hlength := congrArg List.length h
  rwa [List.length_append, List.length_map, List.length_map, List.length_map] at hlength

section Malloc

variable (malloc : Nat → Finmap (fun _ : Nat => Node α) → Nat)

theorem extending_round (hmalloc : ∀ n nodes, malloc n nodes ∉ nodes) (s₀ s : Listas α)
    (list : Nat) (nodes done : List (Nat × Option α)) (node : Nat × Option α)
    (h : Extending s₀ list nodes done s) (hentero : nodes.length + done.length + 1 < 2 ^ 31) :
    ∃ s', Listas.routine malloc list s node.2 = some s' ∧
      Extending s₀ list nodes (done ++ [node]) s' := by
  rcases h.grown with ⟨made, hhas, helems, hlocal⟩
  have hlength := extending_length nodes done made helems
  rcases routine_spec malloc hmalloc s list made node.2 hhas (by omega)
    with ⟨new, s', hroutine, hhas', hlocal', hkept⟩
  refine ⟨s', hroutine, ⟨_, hhas', ?_, Local.trans _ _ _ _ _ _ hlocal hlocal'⟩, ?_⟩
  · rw [List.map_append, helems, List.map_append, List.append_assoc]
    rfl
  · intro address hne
    exact (hkept address hne).trans (h.kept address hne)

theorem extending_last (s₀ s : Listas α) (list : Nat) (nodes done : List (Nat × Option α))
    (element : Option α) (h : Extending s₀ list nodes done s)
    (hentero : nodes.length + done.length + 1 = 2 ^ 31) :
    Listas.routine malloc list s element = none := by
  rcases h.grown with ⟨made, hhas, helems, _⟩
  have hlength := extending_length nodes done made helems
  exact routine_none malloc s list made element hhas (by omega)

theorem apart_extends (hmalloc : ∀ n nodes, malloc n nodes ∉ nodes) (s : Listas α)
    (list other : Nat) (nodes others : List (Nat × Option α)) (hlist : s.Has list nodes)
    (hother : s.Has other others) (hapart : ∀ a ∈ addresses others, a ∉ addresses nodes)
    (hentero : nodes.length + others.length < 2 ^ 31) :
    Extends malloc list other nodes others s := by
  rcases traverseLoop_rule Listas.memory none (some (Listas.routine malloc list)) none false
    (fun done rest t => others = done ++ rest ∧ Extending s list nodes done t)
    (fun done node rest t ⟨hsplit, ht⟩ => by
      rw [hsplit] at hother hapart hentero
      rw [List.length_append, List.length_cons] at hentero
      rcases extending_round malloc hmalloc s t list nodes done node ht (by omega)
        with ⟨t', hroutine, ht'⟩
      refine ⟨_, t', extending_cell s t list other nodes done rest node ht hother hapart, rfl, rfl,
        (visit_elem _ _ _ t).trans hroutine, ?_, ht'⟩
      rw [hsplit, List.append_assoc, List.singleton_append])
    [] others s ⟨rfl, extending_start s list nodes hlist⟩ with ⟨t, hloop, _, ht⟩
  rw [List.nil_append] at ht
  refine ⟨others.length, t, ?_, ?_, ?_⟩
  · rw [mlistExtend_eq malloc _ list other s others hother]
    exact hloop
  · rcases ht.grown with ⟨made, hhas, helems, _⟩
    exact ⟨made, hhas, helems⟩
  · intro hne
    exact ⟨ht.kept other hne, extending_has s t list other nodes others others ht hother hapart hne⟩

/-- The loop is at a node of the other list, after as many rounds as there are nodes before
    it. -/
def Following (s₀ : Listas α) (list : Nat) (nodes others : List (Nat × Option α))
    (k address : Nat) (s : Listas α) : Prop :=
  ∃ done node rest, others = done ++ node :: rest ∧ node.1 = address ∧ done.length = k ∧
    Extending s₀ list nodes done s

/-- While the length is not the greatest one, there is a node after that of the round. -/
theorem following_round (hmalloc : ∀ n nodes, malloc n nodes ∉ nodes) (s₀ s : Listas α)
    (list other k address : Nat) (nodes others : List (Nat × Option α))
    (hother : s₀.Has other others) (hapart : ∀ a ∈ addresses others, a ∉ addresses nodes)
    (hentero : 2 ^ 31 ≤ nodes.length + others.length) (hk : k < 2 ^ 31 - 1 - nodes.length)
    (h : Following s₀ list nodes others k address s) :
    ∃ next s', (∀ fuel, extendLoop malloc list (fuel + 1) (some address) s
        = extendLoop malloc list fuel (some next) s') ∧
      Following s₀ list nodes others (k + 1) next s' := by
  rcases h with ⟨done, node, rest, rfl, rfl, rfl, hs⟩
  rw [List.length_append, List.length_cons] at hentero
  have hcell := extending_cell s₀ s list other nodes done rest node hs hother hapart
  rcases extending_round malloc hmalloc s₀ s list nodes done node hs (by omega)
    with ⟨s', hroutine, hs'⟩
  cases rest with
  | nil =>
      rw [List.length_nil] at hentero
      omega
  | cons next rest =>
      refine ⟨next.1, s', ?_, done ++ [node], next, rest, ?_, rfl, ?_, hs'⟩
      · intro fuel
        rw [extendLoop_succ malloc list fuel node.1 s _ hcell, hroutine]
        rfl
      · rw [List.append_assoc, List.singleton_append]
      · rw [List.length_append, List.length_singleton]

theorem following_last (s₀ s : Listas α) (list other address : Nat)
    (nodes others : List (Nat × Option α)) (hlength : nodes.length < 2 ^ 31)
    (hother : s₀.Has other others) (hapart : ∀ a ∈ addresses others, a ∉ addresses nodes)
    (h : Following s₀ list nodes others (2 ^ 31 - 1 - nodes.length) address s) (fuel : Nat) :
    extendLoop malloc list (fuel + 1) (some address) s = none := by
  rcases h with ⟨done, node, rest, rfl, rfl, hk, hs⟩
  have hcell := extending_cell s₀ s list other nodes done rest node hs hother hapart
  rw [extendLoop_succ malloc list fuel node.1 s _ hcell,
    extending_last malloc s₀ s list nodes done _ hs (by omega)]
  rfl

/-- Lists whose elements no `int` can count: the length of the first becomes the greatest one
    before the loop comes to the end of the second. -/
theorem apart_none (hmalloc : ∀ n nodes, malloc n nodes ∉ nodes) (s : Listas α)
    (list other : Nat) (nodes others : List (Nat × Option α)) (hlist : s.Has list nodes)
    (hother : s.Has other others) (hapart : ∀ a ∈ addresses others, a ∉ addresses nodes)
    (hentero : 2 ^ 31 ≤ nodes.length + others.length) (fuel : Nat) :
    mlistExtend malloc fuel list other s = none := by
  have hlength := has_length s list nodes hlist
  rw [mlistExtend_eq malloc fuel list other s others hother]
  cases hsplit : others with
  | nil =>
      rw [hsplit, List.length_nil] at hentero
      omega
  | cons node rest =>
      exact extendLoop_none malloc list (2 ^ 31 - 1 - nodes.length)
        (Following s list nodes others)
        (fun k address t hk => following_round malloc hmalloc s t list other k address nodes others
          hother hapart hentero hk)
        (fun address t => following_last malloc s t list other address nodes others hlength hother
          hapart)
        node.1 s ⟨[], node, rest, hsplit, rfl, rfl, extending_start s list nodes hlist⟩ fuel

end Malloc

/-! ### Lists that share their nodes -/

/-- Lists that share a node are made of the same nodes. -/
theorem has_unique (s : Listas α) (list other : Nat) (nodes others : List (Nat × Option α))
    (hlist : s.Has list nodes) (hother : s.Has other others) (a : Nat)
    (ha : a ∈ addresses nodes) (ha' : a ∈ addresses others) : nodes = others := by
  rcases hlist with ⟨l, _, hrep⟩
  rcases hother with ⟨o, _, hrep'⟩
  exact linked_unique s.memory.heap nodes others hrep.linked hrep'.linked a ha ha'

theorem has_unique_self (s : Listas α) (list : Nat) (nodes others : List (Nat × Option α))
    (hlist : s.Has list nodes) (hother : s.Has list others) : nodes = others := by
  rcases hlist with ⟨l, hl, hrep⟩
  rcases hother with ⟨o, ho, hrep'⟩
  obtain rfl : l = o := Option.some.inj (hl.symm.trans ho)
  exact linked_unique_next s.memory.heap none none nodes others hrep.linked hrep'.linked
    (hrep.head.symm.trans hrep'.head)

section Malloc

variable (malloc : Nat → Finmap (fun _ : Nat => Node α) → Nat)

/-- One node: the loop ends after it, and the node then has a successor. -/
theorem single_extends (hmalloc : ∀ n nodes, malloc n nodes ∉ nodes) (s : Listas α)
    (list other : Nat) (node : Nat × Option α) (hlist : s.Has list [node])
    (hother : s.Has other [node]) :
    ∃ new s', (∀ fuel, mlistExtend malloc (fuel + 1) list other s = some s') ∧
      s'.Has list [node, (new, node.2)] := by
  have hentero : [node].length + 1 < 2 ^ 31 := by
    rw [List.length_singleton]
    decide
  rcases routine_spec malloc hmalloc s list [node] node.2 hlist hentero
    with ⟨new, s', hroutine, hhas, _⟩
  refine ⟨new, s', ?_, hhas⟩
  intro fuel
  rw [mlistExtend_eq malloc _ list other s [node] hother, first_cons,
    extendLoop_succ malloc list fuel node.1 s _ (has_cell s list [] [] node hlist), hroutine]
  exact traverseLoop_end Listas.memory _ _ _ _ fuel s'

/-- A round at a node that is not the last one of the list that grows. -/
theorem shared_round (hmalloc : ∀ n nodes, malloc n nodes ∉ nodes) (s : Listas α) (list : Nat)
    (done rest : List (Nat × Option α)) (node : Nat × Option α)
    (h : s.Has list (done ++ node :: rest)) (hrest : rest ≠ [])
    (hentero : (done ++ node :: rest).length + 1 < 2 ^ 31) :
    ∃ next rest' s', rest' ≠ [] ∧ s'.Has list ((done ++ [node]) ++ next :: rest') ∧
      ((done ++ [node]) ++ next :: rest').length = (done ++ node :: rest).length + 1 ∧
      ∀ fuel, extendLoop malloc list (fuel + 1) (some node.1) s
        = extendLoop malloc list fuel (some next.1) s' := by
  rcases routine_spec malloc hmalloc s list _ node.2 h hentero with ⟨new, s', hroutine, hhas, _⟩
  cases rest with
  | nil => exact absurd rfl hrest
  | cons next rest =>
      have hsplit : (done ++ node :: next :: rest) ++ [(new, node.2)]
          = (done ++ [node]) ++ next :: (rest ++ [(new, node.2)]) := by
        simp only [List.append_assoc, List.cons_append, List.nil_append]
      rw [hsplit] at hhas
      refine ⟨next, rest ++ [(new, node.2)], s', List.append_ne_nil_of_right_ne_nil _
        (List.cons_ne_nil _ _), hhas, ?_, ?_⟩
      · rw [← hsplit, List.length_append, List.length_singleton]
      · intro fuel
        rw [extendLoop_succ malloc list fuel node.1 s _ (has_cell s list done _ node h), hroutine]
        rfl

/-- The loop is at a node of the list with others behind it, and the list is longer than at
    the beginning by the rounds there have been. -/
def Chasing (list n k address : Nat) (s : Listas α) : Prop :=
  ∃ done node rest, node.1 = address ∧ rest ≠ [] ∧ s.Has list (done ++ node :: rest) ∧
    (done ++ node :: rest).length = n + k

theorem chasing_round (hmalloc : ∀ n nodes, malloc n nodes ∉ nodes) (list n k address : Nat)
    (s : Listas α) (hk : k < 2 ^ 31 - 1 - n) (h : Chasing list n k address s) :
    ∃ next s', (∀ fuel, extendLoop malloc list (fuel + 1) (some address) s
        = extendLoop malloc list fuel (some next) s') ∧ Chasing list n (k + 1) next s' := by
  rcases h with ⟨done, node, rest, rfl, hrest, hhas, hlength⟩
  rcases shared_round malloc hmalloc s list done rest node hhas hrest (by omega)
    with ⟨next, rest', s', hrest', hhas', hlength', hloop⟩
  exact ⟨next.1, s', hloop, done ++ [node], next, rest', rfl, hrest', hhas', by omega⟩

theorem chasing_last (list n address : Nat) (s : Listas α) (hn : n < 2 ^ 31)
    (h : Chasing list n (2 ^ 31 - 1 - n) address s) (fuel : Nat) :
    extendLoop malloc list (fuel + 1) (some address) s = none := by
  rcases h with ⟨done, node, rest, rfl, _, hhas, hlength⟩
  rw [extendLoop_succ malloc list fuel node.1 s _ (has_cell s list done rest node hhas),
    routine_none malloc s list _ _ hhas (by omega)]
  rfl

/-- The rounds of the loop at a list that is extended by itself. -/
theorem shared_rounds (hmalloc : ∀ n nodes, malloc n nodes ∉ nodes) (s : Listas α)
    (list n address : Nat) (h : Chasing list n 0 address s) (k : Nat) (hk : n + k < 2 ^ 31) :
    ∃ address' s', (∀ fuel, extendLoop malloc list (fuel + k) (some address) s
        = extendLoop malloc list fuel (some address') s') ∧ Chasing list n k address' s' :=
  extendLoop_rounds malloc list (2 ^ 31 - 1 - n) (Chasing list n)
    (fun k address s => chasing_round malloc hmalloc list n k address s) address s h k (by omega)

theorem shared_none (hmalloc : ∀ n nodes, malloc n nodes ∉ nodes) (s : Listas α)
    (list other : Nat) (nodes : List (Nat × Option α)) (hlist : s.Has list nodes)
    (hother : s.Has other nodes) (htwo : 2 ≤ nodes.length) (fuel : Nat) :
    mlistExtend malloc fuel list other s = none := by
  rw [mlistExtend_eq malloc fuel list other s nodes hother]
  rcases nodes with _ | ⟨node, _ | ⟨next, rest⟩⟩
  · exact absurd htwo (Nat.not_succ_le_zero 1)
  · exact absurd htwo (Nat.not_succ_le_self 1)
  · exact extendLoop_none malloc list (2 ^ 31 - 1 - (node :: next :: rest).length)
      (Chasing list (node :: next :: rest).length)
      (fun k address t => chasing_round malloc hmalloc list _ k address t)
      (fun address t => chasing_last malloc list _ address t (has_length s list _ hlist))
      node.1 s ⟨[], node, next :: rest, rfl, List.cons_ne_nil _ _, hlist, rfl⟩ fuel

/-- Of the lists that share their nodes only one of one element is extended, and only by
    itself. -/
theorem shared_extends (hmalloc : ∀ n nodes, malloc n nodes ∉ nodes) (s : Listas α)
    (list other : Nat) (nodes : List (Nat × Option α)) (hlist : s.Has list nodes)
    (hother : s.Has other nodes) (hne : nodes ≠ [])
    (h : Extends malloc list other nodes nodes s) : other = list ∧ nodes.length = 1 := by
  rcases h with ⟨fuel, s', hextend, hextended⟩
  rcases nodes with _ | ⟨node, _ | ⟨next, rest⟩⟩
  · exact absurd rfl hne
  · refine ⟨?_, rfl⟩
    by_contra hdistinct
    rcases single_extends malloc hmalloc s list other node hlist hother
      with ⟨new, t, hreturn, hhas⟩
    cases fuel with
    | zero =>
        rw [mlistExtend_eq malloc 0 list other s [node] hother] at hextend
        exact absurd hextend.symm (Option.some_ne_none _)
    | succ fuel =>
        -- The node of the other list has got a successor.
        obtain rfl : t = s' := Option.some.inj ((hreturn fuel).symm.trans hextend)
        have hcell := has_cell t list [] [(new, node.2)] node hhas
        rw [has_cell t other [] [] node (hextended.kept hdistinct).2, Option.some.injEq,
          Cell.mk.injEq] at hcell
        exact absurd hcell.2.1.symm (Option.some_ne_none _)
  · have htwo : 2 ≤ (node :: next :: rest).length := Nat.le_add_left 2 rest.length
    rw [shared_none malloc hmalloc s list other _ hlist hother htwo fuel] at hextend
    exact absurd hextend.symm (Option.some_ne_none _)

/-- `mlist_extend` ends and does what it is for exactly if the two lists have no node in
    common, or are one list with one element, and the elements of both are not too many. -/
theorem mlistExtend_iff (hmalloc : ∀ n nodes, malloc n nodes ∉ nodes) (s : Listas α)
    (list other : Nat) (nodes others : List (Nat × Option α)) (hlist : s.Has list nodes)
    (hother : s.Has other others) :
    Extends malloc list other nodes others s ↔ Extensible list other nodes others := by
  constructor
  · intro h
    by_cases hshared : ∃ a ∈ addresses others, a ∈ addresses nodes
    · rcases hshared with ⟨a, ha, ha'⟩
      obtain rfl := has_unique s list other nodes others hlist hother a ha' ha
      have hne : nodes ≠ [] := by
        rintro rfl
        exact List.not_mem_nil ha
      rcases shared_extends malloc hmalloc s list other nodes hlist hother hne h with ⟨hsame, hone⟩
      exact ⟨by omega, Or.inr ⟨hsame, hone⟩⟩
    · have hapart : ∀ a ∈ addresses others, a ∉ addresses nodes := by
        intro a ha ha'
        exact hshared ⟨a, ha, ha'⟩
      refine ⟨Nat.lt_of_not_le ?_, Or.inl hapart⟩
      intro hentero
      rcases h with ⟨fuel, s', hextend, _⟩
      rw [apart_none malloc hmalloc s list other nodes others hlist hother hapart hentero fuel]
        at hextend
      exact absurd hextend.symm (Option.some_ne_none _)
  · rintro ⟨hentero, hapart | ⟨rfl, hone⟩⟩
    · exact apart_extends malloc hmalloc s list other nodes others hlist hother hapart hentero
    · obtain rfl := has_unique_self s other nodes others hlist hother
      rcases List.length_eq_one_iff.mp hone with ⟨node, rfl⟩
      rcases single_extends malloc hmalloc s other other node hlist hother
        with ⟨new, s', hreturn, hhas⟩
      exact ⟨1, s', hreturn 0, ⟨_, hhas, rfl⟩, fun hne => absurd rfl hne⟩

end Malloc

/-- A list of two nodes and a list of one. -/
def dosListas : Listas Nat :=
  { lists := (Finmap.singleton 0 { head := some 1, tail := some 2, length := 2 }).insert 1
      { head := some 3, tail := some 3, length := 1 }
    memory := {
      nodes := ((Finmap.singleton 1 { prev := none, next := some 2, elem := some 5 }).insert 2
        { prev := some 1, next := none, elem := some 6 }).insert 3
        { prev := none, next := none, elem := some 7 }
      mallocs := 3 } }

theorem has_dosListas : dosListas.Has 0 [(1, some 5), (2, some 6)] := by
  refine ⟨_, rfl, rfl, rfl, rfl, ?_, ⟨rfl, rfl, trivial⟩, (fitsInt_iff 2).mpr (by decide)⟩
  decide

theorem has_dosListas_other : dosListas.Has 1 [(3, some 7)] :=
  ⟨_, rfl, rfl, rfl, rfl, List.nodup_singleton 3, ⟨rfl, trivial⟩, (fitsInt_iff 1).mpr (by decide)⟩

/-- The list of two nodes is extended by the other one. -/
theorem dosListas_extends :
    Extends sampleMalloc 0 1 [(1, some 5), (2, some 6)] [(3, some 7)] dosListas :=
  (mlistExtend_iff sampleMalloc sampleMalloc_fresh dosListas 0 1 _ _ has_dosListas
    has_dosListas_other).mpr ⟨by decide, Or.inl (by decide)⟩

/-- It is not extended by itself, because the loop does not return after any number of
    rounds. -/
theorem self_goes_on :
    dosListas.Has 0 [(1, some 5), (2, some 6)] ∧
      (∀ fuel, mlistExtend sampleMalloc fuel 0 0 dosListas = none) ∧
      ¬ Extends sampleMalloc 0 0 [(1, some 5), (2, some 6)] [(1, some 5), (2, some 6)]
        dosListas := by
  have hnone := shared_none sampleMalloc sampleMalloc_fresh dosListas 0 0 _ has_dosListas
    has_dosListas (Nat.le_refl 2)
  refine ⟨has_dosListas, hnone, ?_⟩
  rintro ⟨fuel, s', hextend, _⟩
  rw [hnone fuel] at hextend
  exact absurd hextend.symm (Option.some_ne_none _)

end Common

end Esther
