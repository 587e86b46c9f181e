import Mathlib.Data.List.Range
import Mathlib.Data.List.Nodup
import Mathlib.Order.Basic

/-!
# Probing

The order in which a table with open addressing is gone through.

A table has `n` slots and every key has a home among them. What is looked for is
looked for in the home first and then in the slots after it, the first slot coming
after the last. `order` lists the slots this way, once each, and `first` is the first
of them that passes a test.

A program has no such list. It goes from the home to the end and then from the start
to the home, in two loops or, when it looks at the home by itself, in three pieces.
`order_split` says that the pieces are the list.

## Main definitions

* `order`: The slots in cyclic order from a home.
* `first`: The first slot in that order that passes a test.
* `scan`: A loop over consecutive slots.

## Theorems

* `order_split`: The home, the slots after it, and those before it.
* `mem_order`: Every slot is there.
* `first_eq_none`: No slot is found exactly when none passes.
* `first_eq_some`: What is found passes, and nothing before it does.
* `first_split`: The home and two loops find the first slot.
-/

namespace Probing

/-- The slots of a table of `n`, from `home` on, each followed by the next modulo `n`. -/
def order (n home : Nat) : List Nat := (List.range n).map fun k => (home + k) % n

/-- The first slot from `home` on that passes a test. -/
def first (n home : Nat) (p : Nat → Bool) : Option Nat := (order n home).find? p

/-- A loop over `count` slots from `i` on that stops at the first that passes a test. -/
def scan (p : Nat → Bool) : Nat → Nat → Option Nat
  | _, 0 => none
  | i, count + 1 => if p i then some i else scan p (i + 1) count

/-- From the home to the end, and then from the start to the home. -/
theorem order_eq (n home : Nat) (h : home < n) :
    order n home = List.range' home (n - home) ++ List.range home := by
  apply List.ext_getElem
  · simp only [order, List.length_map, List.length_range, List.length_append, List.length_range']
    omega
  · intro k hk _
    simp only [order, List.length_map, List.length_range] at hk
    simp only [order, List.getElem_map, List.getElem_range, List.getElem_append,
      List.length_range', List.getElem_range', Nat.one_mul]
    split
    next hlast => rw [Nat.mod_eq_of_lt (by omega)]
    next hfirst =>
      -- Past the end, the slots start again.
      rw [Nat.mod_eq_sub_mod (by omega), Nat.mod_eq_of_lt (by omega)]
      omega

/-- The home, the slots after it, and those before it. -/
theorem order_split (n home : Nat) (h : home < n) :
    order n home = home :: (List.range' (home + 1) (n - (home + 1)) ++ List.range home) := by
  have hlength : n - home = (n - (home + 1)) + 1 := by omega
  rw [order_eq n home h, hlength, List.range'_succ, List.cons_append]

theorem mem_order (n home i : Nat) (h : home < n) : i ∈ order n home ↔ i < n := by
  rw [order_eq n home h, List.mem_append, List.mem_range'_1, List.mem_range]
  omega

theorem first_eq_none (n home : Nat) (p : Nat → Bool) (h : home < n) :
    first n home p = none ↔ ∀ i < n, p i = false := by
  simp only [first, List.find?_eq_none, mem_order n home _ h, Bool.not_eq_true]

theorem first_eq_some (n home i : Nat) (p : Nat → Bool) :
    first n home p = some i ↔
      ∃ k < n, i = (home + k) % n ∧ p i = true ∧ ∀ j < k, p ((home + j) % n) = false := by
  simp only [first, List.find?_eq_some_iff_getElem, order, List.length_map, List.length_range,
    List.getElem_map, List.getElem_range, Bool.not_eq_true']
  constructor
  · rintro ⟨hp, k, hk, rfl, hbefore⟩
    exact ⟨k, hk, rfl, hp, hbefore⟩
  · rintro ⟨k, hk, rfl, hp, hbefore⟩
    exact ⟨hp, k, hk, rfl, hbefore⟩

theorem first_lt (n home i : Nat) (p : Nat → Bool) (h : home < n) (hi : first n home p = some i) :
    i < n ∧ p i = true :=
  ⟨(mem_order n home i h).mp (List.mem_of_find?_eq_some hi), List.find?_some hi⟩

/-- A home that passes is what is found. -/
theorem first_home (n home : Nat) (p : Nat → Bool) (h : home < n) (hp : p home = true) :
    first n home p = some home := by
  rw [first, order_split n home h, List.find?_cons_of_pos hp]

theorem scan_eq (p : Nat → Bool) (i count : Nat) :
    scan p i count = (List.range' i count).find? p := by
  induction count generalizing i with
  | zero => rfl
  | succ count ih =>
      rw [scan, List.range'_succ, List.find?_cons, ih]
      cases p i with
      | false => rfl
      | true => rfl

/-- What a program does for `first`: it looks at the home, then goes to the end, then
    from the start to the home. -/
theorem first_split (n home : Nat) (p : Nat → Bool) (h : home < n) (hhome : p home = false) :
    first n home p = (scan p (home + 1) (n - (home + 1))).or (scan p 0 home) := by
  rw [first, order_split n home h, List.find?_cons_of_neg (by rw [hhome]; exact Bool.false_ne_true),
    List.find?_append, scan_eq, scan_eq, List.range_eq_range']

end Probing
