import Mathlib.Data.List.Induction
import Mathlib.Data.List.Nodup
import Mathlib.Logic.Function.Basic

/-!
# Chains of Cells

Cells in a heap that are linked to the one before and to the one after.

A part of a chain is described by the cells it goes through, in order, and by the addresses
that its two ends point out to. Two parts make a chain if each points out to where the
other begins, so a chain can be cut at any place, changed there, and put together again.
What a change does not write to stays linked as it was.

An address is missing where a chain ends. `setNext` and `setPrev` do nothing there, and so
the two ends of a chain need no cases of their own.

## Main definitions

* `Cell`: A cell with its two links.
* `Linked`: A part of a chain.
* `modifyCell`, `setNext`, `setPrev`, `setElem`: A heap with one cell changed, or a part of one.
* `follow`: Some steps along the links.
* `walk`: The cells on the way to the end.
* `Local`: A change of the heap at the cells of one chain and at new ones.

## Theorems

* `linked_append`: Where a chain can be cut.
* `linked_unique`: Chains that have a cell in common.
* `linked_setNext`, `linked_setPrev`: An end that points out to another address.
* `linked_insert`, `linked_remove`, `linked_replace`: One cell more, less, or another element.
* `follow_next`, `follow_prev`, `walk_next`, `walk_prev`: Ways along the links.
* `linked_of_local`: A chain elsewhere in the heap.
-/

namespace Chain

/-- A cell with the addresses of the one before and of the one after. -/
structure Cell (κ α : Type*) where
  prev : Option κ
  next : Option κ
  elem : α
deriving DecidableEq, Repr

variable {κ α : Type*}

/-- The addresses of some cells. -/
def addresses (nodes : List (κ × α)) : List κ := nodes.map Prod.fst

/-- The address of the first cell, or that after the cells if there are none. -/
def first : List (κ × α) → Option κ → Option κ
  | [], next => next
  | node :: _, _ => some node.1

/-- The address of the last cell, or that before the cells if there are none. -/
def last : List (κ × α) → Option κ → Option κ
  | [], prev => prev
  | node :: nodes, _ => last nodes (some node.1)

/-- The cells are in the heap, linked in order, and point out to two addresses. -/
def Linked (h : κ → Option (Cell κ α)) : Option κ → List (κ × α) → Option κ → Prop
  | _, [], _ => True
  | prev, node :: nodes, next =>
      h node.1 = some { prev := prev, next := first nodes next, elem := node.2 } ∧
        Linked h (some node.1) nodes next

/-! ### Addresses -/

@[simp] theorem addresses_nil : addresses ([] : List (κ × α)) = [] := rfl

@[simp] theorem addresses_cons (node : κ × α) (nodes : List (κ × α)) :
    addresses (node :: nodes) = node.1 :: addresses nodes := rfl

@[simp] theorem addresses_append (xs ys : List (κ × α)) :
    addresses (xs ++ ys) = addresses xs ++ addresses ys := List.map_append

@[simp] theorem first_nil (next : Option κ) : first ([] : List (κ × α)) next = next := rfl

@[simp] theorem first_cons (node : κ × α) (nodes : List (κ × α)) (next : Option κ) :
    first (node :: nodes) next = some node.1 := rfl

theorem first_append (xs ys : List (κ × α)) (next : Option κ) :
    first (xs ++ ys) next = first xs (first ys next) := by
  cases xs with
  | nil => rfl
  | cons node xs => rfl

theorem last_append (xs ys : List (κ × α)) (prev : Option κ) :
    last (xs ++ ys) prev = last ys (last xs prev) := by
  induction xs generalizing prev with
  | nil => rfl
  | cons node xs ih => exact ih (some node.1)

theorem last_concat (xs : List (κ × α)) (node : κ × α) (prev : Option κ) :
    last (xs ++ [node]) prev = some node.1 := last_append xs [node] prev

/-- Where there are cells, it does not matter what is after them. -/
theorem first_of_ne_nil (nodes : List (κ × α)) (next next' : Option κ) (h : nodes ≠ []) :
    first nodes next = first nodes next' := by
  cases nodes with
  | nil => exact absurd rfl h
  | cons node nodes => rfl

theorem first_reverse (nodes : List (κ × α)) (next : Option κ) :
    first nodes.reverse next = last nodes next := by
  induction nodes generalizing next with
  | nil => rfl
  | cons node nodes ih =>
      rw [List.reverse_cons, first_append, ih]
      rfl

theorem mem_of_first (nodes : List (κ × α)) (a : κ) (h : first nodes none = some a) :
    a ∈ addresses nodes := by
  cases nodes with
  | nil => exact absurd h (by simp only [first_nil, reduceCtorEq, not_false_eq_true])
  | cons node nodes =>
      rw [first_cons, Option.some.injEq] at h
      exact h ▸ List.mem_cons_self

theorem mem_of_last (nodes : List (κ × α)) (a : κ) (h : last nodes none = some a) :
    a ∈ addresses nodes := by
  rw [← first_reverse] at h
  have hmem := mem_of_first nodes.reverse a h
  rwa [addresses, List.map_reverse, List.mem_reverse] at hmem

/-! ### Parts of a chain -/

/-- Two parts make a chain if each points out to where the other begins. -/
theorem linked_append (h : κ → Option (Cell κ α)) (prev next : Option κ) (xs ys : List (κ × α)) :
    Linked h prev (xs ++ ys) next ↔
      Linked h prev xs (first ys next) ∧ Linked h (last xs prev) ys next := by
  induction xs generalizing prev with
  | nil => exact (and_iff_right trivial).symm
  | cons node xs ih =>
      simp only [List.cons_append, Linked, last, ih, first_append, and_assoc]

/-- The cell in the middle of a chain. -/
theorem linked_middle (h : κ → Option (Cell κ α)) (prev next : Option κ) (xs ys : List (κ × α))
    (a : κ) (x : α) (hl : Linked h prev (xs ++ (a, x) :: ys) next) :
    h a = some { prev := last xs prev, next := first ys next, elem := x } :=
  ((linked_append h prev next xs _).mp hl).2.1

/-- Cells that are what they were are linked as they were. -/
theorem linked_congr (h h' : κ → Option (Cell κ α)) (prev next : Option κ) (nodes : List (κ × α))
    (hsame : ∀ a ∈ addresses nodes, h' a = h a) (hl : Linked h prev nodes next) :
    Linked h' prev nodes next := by
  induction nodes generalizing prev with
  | nil => trivial
  | cons node nodes ih =>
      refine ⟨(hsame node.1 List.mem_cons_self).trans hl.1, ?_⟩
      exact ih (some node.1) (fun a ha => hsame a (List.mem_cons_of_mem _ ha)) hl.2

/-- A part of a chain up to the end is known by where it begins. -/
theorem linked_unique_next (h : κ → Option (Cell κ α)) (prev prev' : Option κ)
    (xs ys : List (κ × α)) (hxs : Linked h prev xs none) (hys : Linked h prev' ys none)
    (hfirst : first xs none = first ys none) : xs = ys := by
  induction xs generalizing prev prev' ys with
  | nil => cases ys with
    | nil => rfl
    | cons node ys => exact absurd hfirst.symm (Option.some_ne_none _)
  | cons node xs ih => cases ys with
    | nil => exact absurd hfirst (Option.some_ne_none _)
    | cons node' ys =>
        have haddress : node.1 = node'.1 := Option.some.inj hfirst
        have hcell := hxs.1
        rw [haddress, hys.1, Option.some.injEq, Cell.mk.injEq] at hcell
        rw [Prod.ext haddress hcell.2.2.symm, ih _ _ ys hxs.2 hys.2 hcell.2.1.symm]

/-- A part of a chain from the beginning is known by where it ends. -/
theorem linked_unique_prev (h : κ → Option (Cell κ α)) (next next' : Option κ)
    (xs ys : List (κ × α)) (hxs : Linked h none xs next) (hys : Linked h none ys next')
    (hlast : last xs none = last ys none) : xs = ys := by
  induction xs using List.reverseRecOn generalizing next next' ys with
  | nil =>
      rcases List.eq_nil_or_concat ys with rfl | ⟨zs, node, rfl⟩
      · rfl
      · rw [List.concat_eq_append, last_concat] at hlast
        exact absurd hlast.symm (Option.some_ne_none _)
  | append_singleton xs node ih =>
      rw [last_concat] at hlast
      rcases List.eq_nil_or_concat ys with rfl | ⟨zs, node', rfl⟩
      · exact absurd hlast (Option.some_ne_none _)
      · rw [List.concat_eq_append] at hys hlast ⊢
        rw [last_concat, Option.some.injEq] at hlast
        have hcell := linked_middle h none next xs [] node.1 node.2 hxs
        rw [hlast, linked_middle h none next' zs [] node'.1 node'.2 hys, Option.some.injEq,
          Cell.mk.injEq] at hcell
        rw [linked_append] at hxs hys
        rw [Prod.ext hlast hcell.2.2.symm, ih _ _ zs hxs.1 hys.1 hcell.1.symm]

/-- Two whole chains that have a cell in common are the same one. -/
theorem linked_unique (h : κ → Option (Cell κ α)) (xs ys : List (κ × α))
    (hxs : Linked h none xs none) (hys : Linked h none ys none) (a : κ) (hax : a ∈ addresses xs)
    (hay : a ∈ addresses ys) : xs = ys := by
  rcases List.mem_map.mp hax with ⟨node, hnode, rfl⟩
  rcases List.mem_map.mp hay with ⟨node', hnode', haddress⟩
  rcases List.append_of_mem hnode with ⟨xs₁, xs₂, rfl⟩
  rcases List.append_of_mem hnode' with ⟨ys₁, ys₂, rfl⟩
  -- The cell says what is before and what is after it.
  have hcell := linked_middle h none none xs₁ xs₂ node.1 node.2 hxs
  rw [← haddress, linked_middle h none none ys₁ ys₂ node'.1 node'.2 hys, Option.some.injEq,
    Cell.mk.injEq] at hcell
  rw [linked_append] at hxs hys
  have hbefore := linked_unique_prev h _ _ ys₁ xs₁ hys.1 hxs.1 hcell.1
  have hafter := linked_unique_next h _ _ ys₂ xs₂ hys.2.2 hxs.2.2 hcell.2.1
  rw [hbefore, hafter, Prod.ext haddress hcell.2.2]

section Write

variable [DecidableEq κ]

/-- The heap with one cell changed. -/
def modifyCell (h : κ → Option (Cell κ α)) (a : Option κ) (f : Cell κ α → Cell κ α) :
    κ → Option (Cell κ α) :=
  match a with
  | none => h
  | some a => Function.update h a ((h a).map f)

/-- The heap with the link of a cell to the one after changed. -/
def setNext (h : κ → Option (Cell κ α)) (a next : Option κ) : κ → Option (Cell κ α) :=
  modifyCell h a fun cell => { cell with next := next }

/-- The heap with the link of a cell to the one before changed. -/
def setPrev (h : κ → Option (Cell κ α)) (a prev : Option κ) : κ → Option (Cell κ α) :=
  modifyCell h a fun cell => { cell with prev := prev }

/-- The heap with the element of a cell changed. -/
def setElem (h : κ → Option (Cell κ α)) (a : Option κ) (elem : α) : κ → Option (Cell κ α) :=
  modifyCell h a fun cell => { cell with elem := elem }

@[simp] theorem modifyCell_self (h : κ → Option (Cell κ α)) (a : κ) (f : Cell κ α → Cell κ α) :
    modifyCell h (some a) f a = (h a).map f := Function.update_self _ _ _

theorem modifyCell_of_ne (h : κ → Option (Cell κ α)) (a : Option κ) (f : Cell κ α → Cell κ α) (b : κ)
    (hne : a ≠ some b) : modifyCell h a f b = h b := by
  cases a with
  | none => rfl
  | some a => exact Function.update_of_ne (fun heq => hne (congrArg some heq.symm)) _ _

theorem isSome_modifyCell (h : κ → Option (Cell κ α)) (a : Option κ) (f : Cell κ α → Cell κ α)
    (b : κ) : (modifyCell h a f b).isSome = (h b).isSome := by
  by_cases ha : a = some b
  · rw [ha, modifyCell_self, Option.isSome_map]
  · rw [modifyCell_of_ne h a f b ha]

/-- Changes that do not disturb each other can be made in either order. -/
theorem modifyCell_comm (h : κ → Option (Cell κ α)) (a b : Option κ) (f g : Cell κ α → Cell κ α)
    (hfg : ∀ cell, f (g cell) = g (f cell)) :
    modifyCell (modifyCell h b g) a f = modifyCell (modifyCell h a f) b g := by
  funext c
  by_cases ha : a = some c
  · by_cases hb : b = some c
    · rw [ha, hb]
      simp only [modifyCell_self, Option.map_map, Function.comp_def, hfg]
    · rw [ha, modifyCell_self, modifyCell_of_ne h b g c hb, modifyCell_of_ne _ b g c hb, modifyCell_self]
  · rw [modifyCell_of_ne _ a f c ha]
    by_cases hb : b = some c
    · rw [hb, modifyCell_self, modifyCell_self, modifyCell_of_ne h a f c ha]
    · rw [modifyCell_of_ne h b g c hb, modifyCell_of_ne _ b g c hb, modifyCell_of_ne h a f c ha]

theorem setNext_of_ne (h : κ → Option (Cell κ α)) (a next : Option κ) (b : κ) (hne : a ≠ some b) :
    setNext h a next b = h b := modifyCell_of_ne h a _ b hne

theorem setPrev_of_ne (h : κ → Option (Cell κ α)) (a prev : Option κ) (b : κ) (hne : a ≠ some b) :
    setPrev h a prev b = h b := modifyCell_of_ne h a _ b hne

theorem isSome_setNext (h : κ → Option (Cell κ α)) (a next : Option κ) (b : κ) :
    (setNext h a next b).isSome = (h b).isSome := isSome_modifyCell h a _ b

theorem isSome_setPrev (h : κ → Option (Cell κ α)) (a prev : Option κ) (b : κ) :
    (setPrev h a prev b).isSome = (h b).isSome := isSome_modifyCell h a _ b

/-- The two links of a cell are written independently. -/
theorem setNext_setPrev (h : κ → Option (Cell κ α)) (a b next prev : Option κ) :
    setNext (setPrev h b prev) a next = setPrev (setNext h a next) b prev :=
  modifyCell_comm h a b _ _ fun _ => rfl

/-- The last cell of a part is pointed elsewhere. -/
theorem linked_setNext (h : κ → Option (Cell κ α)) (prev next next' : Option κ)
    (nodes : List (κ × α)) (hnodup : (addresses nodes).Nodup) (hl : Linked h prev nodes next) :
    Linked (setNext h (last nodes none) next') prev nodes next' := by
  rcases List.eq_nil_or_concat nodes with rfl | ⟨xs, node, rfl⟩
  · trivial
  · rw [List.concat_eq_append, addresses_append, addresses_cons, addresses_nil,
      List.nodup_append] at hnodup
    rw [List.concat_eq_append, linked_append] at hl
    rw [List.concat_eq_append, last_concat, linked_append]
    refine ⟨linked_congr h _ prev _ xs (fun a ha => ?_) hl.1, ?_, trivial⟩
    · refine setNext_of_ne h _ next' a fun heq => ?_
      exact hnodup.2.2 a ha node.1 List.mem_cons_self (Option.some.inj heq).symm
    · simp only [setNext, modifyCell_self, hl.2.1, Option.map_some, first_nil]

/-- The first cell of a part is pointed elsewhere. -/
theorem linked_setPrev (h : κ → Option (Cell κ α)) (prev prev' next : Option κ)
    (nodes : List (κ × α)) (hnodup : (addresses nodes).Nodup) (hl : Linked h prev nodes next) :
    Linked (setPrev h (first nodes none) prev') prev' nodes next := by
  cases nodes with
  | nil => trivial
  | cons node nodes =>
      rw [addresses_cons, List.nodup_cons] at hnodup
      refine ⟨?_, linked_congr h _ _ next nodes (fun a ha => ?_) hl.2⟩
      · simp only [first_cons, setPrev, modifyCell_self, hl.1, Option.map_some]
      · refine setPrev_of_ne h _ prev' a fun heq => ?_
        exact hnodup.1 ((Option.some.inj heq) ▸ ha)

/-- A new cell is linked in at any place of a chain. -/
theorem linked_insert (h : κ → Option (Cell κ α)) (xs ys : List (κ × α)) (a : κ) (x : α)
    (hnodup : (addresses (xs ++ ys)).Nodup) (ha : a ∉ addresses (xs ++ ys))
    (hl : Linked h none (xs ++ ys) none)
    (hcell : h a = some { prev := last xs none, next := first ys none, elem := x }) :
    Linked (setNext (setPrev h (first ys none) (some a)) (last xs none) (some a)) none
      (xs ++ (a, x) :: ys) none := by
  rw [addresses_append, List.nodup_append] at hnodup
  rw [addresses_append, List.mem_append, not_or] at ha
  rw [linked_append] at hl
  have hfirst : ∀ b ∈ addresses xs, first ys none ≠ some b := fun b hb heq =>
    hnodup.2.2 b hb b (mem_of_first ys b heq) rfl
  have hlast : ∀ b ∈ addresses ys, last xs none ≠ some b := fun b hb heq =>
    hnodup.2.2 b (mem_of_last xs b heq) b hb rfl
  rw [linked_append]
  refine ⟨?_, ?_, ?_⟩
  · refine linked_setNext _ none (first ys none) (some a) xs hnodup.1 ?_
    exact linked_congr h _ none _ xs (fun b hb => setPrev_of_ne h _ _ b (hfirst b hb)) hl.1
  · show setNext _ (last xs none) (some a) a = _
    rw [setNext_of_ne _ _ _ a fun heq => ha.1 (mem_of_last xs a heq),
      setPrev_of_ne _ _ _ a fun heq => ha.2 (mem_of_first ys a heq), hcell]
  · refine linked_congr _ _ (some a) none ys (fun b hb => setNext_of_ne _ _ _ b (hlast b hb)) ?_
    exact linked_setPrev h (last xs none) (some a) none ys hnodup.2.1 hl.2

/-- A cell is taken out of a chain. -/
theorem linked_remove (h : κ → Option (Cell κ α)) (xs ys : List (κ × α)) (a : κ) (x : α)
    (hnodup : (addresses (xs ++ (a, x) :: ys)).Nodup)
    (hl : Linked h none (xs ++ (a, x) :: ys) none) :
    Linked (Function.update
      (setPrev (setNext h (last xs none) (first ys none)) (first ys none) (last xs none)) a none)
      none (xs ++ ys) none := by
  rw [addresses_append, addresses_cons, List.nodup_append, List.nodup_cons] at hnodup
  rcases hnodup with ⟨hxs, ⟨hays, hys⟩, hdisjoint⟩
  rw [linked_append] at hl
  have haxs : a ∉ addresses xs := fun ha => hdisjoint a ha a List.mem_cons_self rfl
  have hfirst : ∀ b ∈ addresses xs, first ys none ≠ some b := fun b hb heq =>
    hdisjoint b hb b (List.mem_cons_of_mem _ (mem_of_first ys b heq)) rfl
  have hlast : ∀ b ∈ addresses ys, last xs none ≠ some b := fun b hb heq =>
    hdisjoint b (mem_of_last xs b heq) b (List.mem_cons_of_mem _ hb) rfl
  refine linked_congr (setPrev (setNext h (last xs none) (first ys none)) (first ys none)
    (last xs none)) _ none none (xs ++ ys) (fun b hb => ?_) ?_
  · refine Function.update_of_ne (fun heq => ?_) _ _
    rw [addresses_append, List.mem_append, heq] at hb
    exact hb.elim haxs hays
  · rw [linked_append]
    constructor
    · refine linked_congr _ _ none _ xs (fun b hb => setPrev_of_ne _ _ _ b (hfirst b hb)) ?_
      exact linked_setNext h none (some a) (first ys none) xs hxs hl.1
    · refine linked_setPrev _ (some a) (last xs none) none ys hys ?_
      exact linked_congr h _ (some a) none ys (fun b hb => setNext_of_ne _ _ _ b (hlast b hb))
        hl.2.2

/-- A cell is given another element. -/
theorem linked_replace (h : κ → Option (Cell κ α)) (xs ys : List (κ × α)) (a : κ) (x y : α)
    (hnodup : (addresses (xs ++ (a, x) :: ys)).Nodup)
    (hl : Linked h none (xs ++ (a, x) :: ys) none) :
    Linked (setElem h (some a) y) none (xs ++ (a, y) :: ys) none := by
  rw [addresses_append, addresses_cons, List.nodup_append, List.nodup_cons] at hnodup
  rcases hnodup with ⟨_, ⟨hays, _⟩, hdisjoint⟩
  rw [linked_append] at hl ⊢
  refine ⟨linked_congr h _ none _ xs ?_ hl.1, ?_, linked_congr h _ (some a) none ys ?_ hl.2.2⟩
  · intro b hb
    exact modifyCell_of_ne h _ _ b fun heq =>
      hdisjoint b hb a List.mem_cons_self (Option.some.inj heq).symm
  · simp only [setElem, modifyCell_self, hl.2.1, Option.map_some]
  · intro b hb
    exact modifyCell_of_ne h _ _ b fun heq => hays (Option.some.inj heq ▸ hb)

end Write

/-! ### Ways along the links -/

/-- Some steps along the links, all of them from a cell that is in the heap. -/
def follow (link : Cell κ α → Option κ) (h : κ → Option (Cell κ α)) :
    Nat → Option κ → Option (Option κ)
  | 0, a => some a
  | _ + 1, none => none
  | n + 1, some a => match h a with
    | some cell => follow link h n (link cell)
    | none => none

/-- The cells on the way to the end, if there are not too many. -/
def walk (link : Cell κ α → Option κ) (h : κ → Option (Cell κ α)) :
    Nat → Option κ → Option (List (κ × α))
  | _, none => some []
  | 0, some _ => none
  | n + 1, some a => match h a with
    | some cell => (walk link h n (link cell)).map fun nodes => (a, cell.elem) :: nodes
    | none => none

theorem follow_next (h : κ → Option (Cell κ α)) (prev next : Option κ) (xs ys : List (κ × α))
    (hl : Linked h prev (xs ++ ys) next) :
    follow Cell.next h xs.length (first (xs ++ ys) next) = some (first ys next) := by
  induction xs generalizing prev with
  | nil => rfl
  | cons node xs ih =>
      have hcell := hl.1
      simp only [List.cons_append, first_cons, List.length_cons, follow, hcell]
      exact ih (some node.1) hl.2

theorem follow_prev (h : κ → Option (Cell κ α)) (prev next : Option κ) (xs ys : List (κ × α))
    (hl : Linked h prev (xs ++ ys) next) :
    follow Cell.prev h ys.length (last (xs ++ ys) prev) = some (last xs prev) := by
  -- From the last cell back, so the induction takes the cells off at the end.
  induction ys using List.reverseRecOn generalizing next with
  | nil => rw [List.append_nil, List.length_nil, follow]
  | append_singleton ys node ih =>
      rw [← List.append_assoc] at hl ⊢
      have hcell := linked_middle h prev next (xs ++ ys) [] node.1 node.2 hl
      rw [last_concat, List.length_append, List.length_singleton, follow, hcell]
      exact ih (first [node] next) ((linked_append h prev next (xs ++ ys) [node]).mp hl).1

theorem walk_next (h : κ → Option (Cell κ α)) (prev : Option κ) (nodes : List (κ × α))
    (hl : Linked h prev nodes none) :
    walk Cell.next h nodes.length (first nodes none) = some nodes := by
  induction nodes generalizing prev with
  | nil => rfl
  | cons node nodes ih =>
      have hcell := hl.1
      have hrest := ih (some node.1) hl.2
      simp only [first_cons, List.length_cons, walk, hcell, hrest, Option.map_some]

theorem walk_prev (h : κ → Option (Cell κ α)) (next : Option κ) (nodes : List (κ × α))
    (hl : Linked h none nodes next) :
    walk Cell.prev h nodes.length (last nodes none) = some nodes.reverse := by
  induction nodes using List.reverseRecOn generalizing next with
  | nil => rfl
  | append_singleton nodes node ih =>
      have hcell := linked_middle h none next nodes [] node.1 node.2 hl
      have hrest := ih (first [node] next) ((linked_append h none next nodes [node]).mp hl).1
      rw [last_concat, List.length_append, List.length_singleton, walk, hcell]
      simp only [hrest, Option.map_some, List.reverse_append, List.reverse_singleton,
        List.singleton_append]

/-! ### Changes in one place -/

/-- The heap changes at the cells of one chain and where there was no cell, and the cells
    that the chain then has were of the chain or are new. -/
structure Local (h : κ → Option (Cell κ α)) (nodes : List (κ × α)) (h' : κ → Option (Cell κ α))
    (nodes' : List (κ × α)) : Prop where
  keeps : ∀ a cell, a ∉ addresses nodes → h a = some cell → h' a = some cell
  fresh : ∀ a ∈ addresses nodes', a ∈ addresses nodes ∨ h a = none

theorem Local.refl (h : κ → Option (Cell κ α)) (nodes : List (κ × α)) : Local h nodes h nodes :=
  ⟨fun _ _ _ hcell => hcell, fun _ ha => Or.inl ha⟩

theorem Local.trans (h h' h'' : κ → Option (Cell κ α)) (nodes nodes' nodes'' : List (κ × α))
    (h₁ : Local h nodes h' nodes') (h₂ : Local h' nodes' h'' nodes'') :
    Local h nodes h'' nodes'' := by
  constructor
  · intro a cell ha hcell
    refine h₂.keeps a cell (fun hmem => ?_) (h₁.keeps a cell ha hcell)
    rcases h₁.fresh a hmem with hold | hnone
    · exact ha hold
    · exact absurd (hcell.symm.trans hnone) (by simp only [reduceCtorEq, not_false_eq_true])
  · intro a ha
    rcases h₂.fresh a ha with hmem | hnone
    · exact h₁.fresh a hmem
    · by_cases hmem : a ∈ addresses nodes
      · exact Or.inl hmem
      · cases hcell : h a with
        | none => exact Or.inr rfl
        | some cell =>
            have hkept := h₁.keeps a cell hmem hcell
            exact absurd (hkept.symm.trans hnone) (by simp only [reduceCtorEq, not_false_eq_true])

/-- A linked part has all of its cells in the heap. -/
theorem exists_of_linked (h : κ → Option (Cell κ α)) (prev next : Option κ)
    (nodes : List (κ × α)) (hl : Linked h prev nodes next) (a : κ) (ha : a ∈ addresses nodes) :
    ∃ cell, h a = some cell := by
  rcases List.mem_map.mp ha with ⟨node, hmem, rfl⟩
  rcases List.append_of_mem hmem with ⟨xs, ys, rfl⟩
  exact ⟨_, linked_middle h prev next xs ys node.1 node.2 hl⟩

/-- A chain of other cells stays linked. -/
theorem linked_of_local (h h' : κ → Option (Cell κ α)) (nodes nodes' : List (κ × α))
    (hlocal : Local h nodes h' nodes') (prev next : Option κ) (other : List (κ × α))
    (hother : ∀ a ∈ addresses other, a ∉ addresses nodes) (hl : Linked h prev other next) :
    Linked h' prev other next := by
  refine linked_congr h h' prev next other (fun a ha => ?_) hl
  rcases exists_of_linked h prev next other hl a ha with ⟨cell, hcell⟩
  rw [hcell]
  exact hlocal.keeps a cell (hother a ha) hcell

end Chain
