import Mathlib.Logic.Function.Basic
import Mathlib.Tactic.Ring

/-!
# Addressed Cells

Memory seen through a pointer: a value for every offset from it. A pointer in
C carries no length, so offsets are integers and reads are total; whether an
offset lies inside the object is a separate statement about the offset.

`copy` is the loop `for(...) dst[d++] = src[s++]`, and `write` stores a list
of values from an address on. Each has one lemma saying what every cell holds
afterwards, and the clients never unfold the loops. `Reads` is the converse
direction: the cells from an address on hold the given values.

## Main definitions

* `span`: The consecutive addresses a loop visits.
* `slice`: The values of consecutive cells.
* `copy`: The copying loop.
* `write`: Storing a list of values from an address on.
* `Reads`: The cells from an address on hold a list of values.
* `paged`: The cells of several blocks, one block after another.

## Theorems

* `copy_apply`: Each cell after the copying loop.
* `slice_copy_self`: Reading back what was copied.
* `write_apply`: Each cell after a list is stored.
* `write_append`: Storing two lists one after the other.
* `reads_append`: Two lists one after the other.
* `reads_write`: A stored list is there to be read.
* `take_paged_iff`: When blocks hold a list.
-/

namespace Cells

variable {β : Type*}

/-- The addresses `a, a + 1, ...`, `n` of them. -/
def span (a : Int) (n : Nat) : List Int :=
  (List.range n).map fun k : Nat => a + (k : Int)

theorem mem_span (a : Int) (n : Nat) (i : Int) : i ∈ span a n ↔ a ≤ i ∧ i < a + n := by
  simp only [span, List.mem_map, List.mem_range]
  constructor
  · rintro ⟨k, hk, rfl⟩
    omega
  · rintro ⟨hlo, hhi⟩
    exact ⟨(i - a).toNat, by omega, by omega⟩

/-- The values of the `n` cells from `a` on. -/
def slice (m : Int → β) (a : Int) (n : Nat) : List β :=
  (List.range n).map fun k : Nat => m (a + (k : Int))

@[simp] theorem slice_length (m : Int → β) (a : Int) (n : Nat) : (slice m a n).length = n := by
  simp only [slice, List.length_map, List.length_range]

theorem slice_getElem (m : Int → β) (a : Int) (n k : Nat) (hk : k < (slice m a n).length) :
    (slice m a n)[k] = m (a + (k : Int)) := by
  simp only [slice, List.getElem_map, List.getElem_range]

/-- Two slices are equal when their cells are. -/
theorem slice_congr (m m' : Int → β) (a a' : Int) (n : Nat)
    (h : ∀ k : Nat, k < n → m (a + (k : Int)) = m' (a' + (k : Int))) :
    slice m a n = slice m' a' n := by
  refine List.map_congr_left fun k hk => h k (List.mem_range.mp hk)

/-- The loop `dst[d++] = src[s++]`, `n` times. -/
def copy (dst src : Int → β) (d s : Int) : Nat → Int → β
  | 0 => dst
  | n + 1 => copy (Function.update dst d (src s)) src (d + 1) (s + 1) n

/-- Each cell after the copying loop: the copied range holds the source's
    cells, everything else is untouched. -/
theorem copy_apply (dst src : Int → β) (d s : Int) (n : Nat) (i : Int) :
    copy dst src d s n i = if d ≤ i ∧ i < d + n then src (s + (i - d)) else dst i := by
  induction n generalizing dst d s with
  | zero =>
      rw [copy, if_neg (by omega)]
  | succ n ih =>
      rw [copy, ih]
      by_cases hd : i = d
      · rw [if_neg (by omega), if_pos (by omega), hd, Function.update_self, Int.sub_self,
          Int.add_zero]
      · by_cases hin : d + 1 ≤ i ∧ i < d + 1 + n
        · rw [if_pos hin, if_pos (by omega)]
          congr 1
          omega
        · rw [if_neg hin, if_neg (by omega), Function.update_of_ne hd]

/-- Reading back what the loop copied. -/
theorem slice_copy_self (dst src : Int → β) (d s : Int) (n : Nat) :
    slice (copy dst src d s n) d n = slice src s n := by
  refine slice_congr _ _ _ _ _ fun k hk => ?_
  rw [copy_apply, if_pos (by omega)]
  congr 1
  omega

/-- Store the values one after the other from `a` on. -/
def write (m : Int → β) (a : Int) : List β → Int → β
  | [] => m
  | b :: bs => write (Function.update m a b) (a + 1) bs

/-- Each cell after a list is stored. -/
theorem write_apply (m : Int → β) (a : Int) (bs : List β) (i : Int) :
    write m a bs i = if a ≤ i ∧ i < a + bs.length then bs.getD (i - a).toNat (m i) else m i := by
  induction bs generalizing m a with
  | nil => rw [write, if_neg (by simp only [List.length_nil]; omega)]
  | cons b bs ih =>
      rw [write, ih, List.length_cons]
      by_cases hd : i = a
      · rw [if_neg (by omega), if_pos (by omega), hd, Function.update_self, Int.sub_self]
        rfl
      · by_cases hin : a + 1 ≤ i ∧ i < a + 1 + bs.length
        · rw [if_pos hin, if_pos (by omega), show (i - a).toNat = (i - (a + 1)).toNat + 1 by omega,
            List.getD_cons_succ, Function.update_of_ne hd]
        · rw [if_neg hin, if_neg (by omega), Function.update_of_ne hd]

theorem write_append (m : Int → β) (a : Int) (xs ys : List β) :
    write m a (xs ++ ys) = write (write m a xs) (a + xs.length) ys := by
  induction xs generalizing m a with
  | nil => simp only [List.nil_append, write, List.length_nil, Int.natCast_zero, Int.add_zero]
  | cons x xs ih =>
      simp only [List.cons_append, write, ih, List.length_cons]
      congr 1
      omega

/-- A cell outside the stored range keeps its value. -/
theorem write_of_notMem (m : Int → β) (a : Int) (bs : List β) (i : Int)
    (h : i < a ∨ a + bs.length ≤ i) : write m a bs i = m i := by
  rw [write_apply, if_neg (by omega)]

/-- The cells from `a` on hold the given values. -/
def Reads (m : Int → β) (a : Int) (bs : List β) : Prop :=
  slice m a bs.length = bs

@[simp] theorem reads_nil (m : Int → β) (a : Int) : Reads m a [] := rfl

theorem reads_cons (m : Int → β) (a : Int) (b : β) (bs : List β) :
    Reads m a (b :: bs) ↔ m a = b ∧ Reads m (a + 1) bs := by
  simp only [Reads, slice, List.length_cons, List.range_succ_eq_map, List.map_cons, List.map_map,
    List.cons.injEq, Int.natCast_zero, Int.add_zero]
  refine and_congr_right fun _ => ?_
  have hshift : ((fun k : Nat => m (a + (k : Int))) ∘ Nat.succ)
      = fun k : Nat => m (a + 1 + (k : Int)) := by
    funext k
    simp only [Function.comp, Nat.succ_eq_add_one, Int.natCast_add, Int.natCast_one]
    congr 1
    ring
  rw [hshift]

theorem reads_append (m : Int → β) (a : Int) (xs ys : List β) :
    Reads m a (xs ++ ys) ↔ Reads m a xs ∧ Reads m (a + xs.length) ys := by
  induction xs generalizing a with
  | nil => simp only [List.nil_append, reads_nil, List.length_nil, Int.natCast_zero, Int.add_zero,
      true_and]
  | cons x xs ih =>
      rw [List.cons_append, reads_cons, reads_cons, ih, and_assoc, List.length_cons,
        show a + 1 + (xs.length : Int) = a + ((xs.length + 1 : Nat) : Int) by omega]

/-- Cells that agree over the range hold the same list. -/
theorem reads_congr (m m' : Int → β) (a : Int) (bs : List β)
    (h : ∀ i, a ≤ i → i < a + bs.length → m' i = m i) (hr : Reads m a bs) : Reads m' a bs := by
  rw [Reads, ← hr, slice_length]
  refine slice_congr _ _ _ _ _ fun k hk => h _ (by omega) (by omega)

/-- The first cells of a list that is there. -/
theorem slice_of_reads (m : Int → β) (a : Int) (bs : List β) (h : Reads m a bs) (n : Nat)
    (hn : n ≤ bs.length) : slice m a n = bs.take n := by
  rw [← List.take_append_drop n bs, reads_append] at h
  have htake := h.1
  rwa [Reads, List.length_take, Nat.min_eq_left hn] at htake

/-- A stored list is there to be read. -/
theorem reads_write (m : Int → β) (a : Int) (bs : List β) : Reads (write m a bs) a bs := by
  induction bs generalizing m a with
  | nil => exact reads_nil _ _
  | cons b bs ih =>
      refine (reads_cons _ _ _ _).mpr ⟨?_, ih _ _⟩
      rw [write, write_of_notMem _ _ _ _ (by omega), Function.update_self]

/-- The cells of `n` blocks of one size, one block after another. -/
def paged (m : Int → β) (base : Nat → Int) (size n : Nat) : List β :=
  (List.range n).flatMap fun p : Nat => slice m (base p) size

theorem paged_succ (m : Int → β) (base : Nat → Int) (size n : Nat) :
    paged m base size (n + 1) = paged m base size n ++ slice m (base n) size := by
  unfold paged
  rw [List.range_succ, List.flatMap_append, List.flatMap_singleton]

@[simp] theorem paged_length (m : Int → β) (base : Nat → Int) (size n : Nat) :
    (paged m base size n).length = n * size := by
  induction n with
  | zero => simp [paged]
  | succ n ih => rw [paged_succ, List.length_append, ih, slice_length, Nat.succ_mul]

/-- The cell at an offset of a block. -/
theorem paged_getElem? (m : Int → β) (base : Nat → Int) (size n p o : Nat) (hp : p < n)
    (ho : o < size) : (paged m base size n)[p * size + o]? = some (m (base p + (o : Int))) := by
  induction n with
  | zero => exact absurd hp (Nat.not_lt_zero p)
  | succ n ih =>
      rw [paged_succ]
      by_cases hlast : p < n
      · have hlt : p * size + o < (paged m base size n).length := by
          have hmul : (p + 1) * size ≤ n * size := Nat.mul_le_mul_right size hlast
          rw [Nat.succ_mul] at hmul
          rw [paged_length]
          omega
        rw [List.getElem?_append_left hlt]
        exact ih hlast
      · obtain rfl : p = n := by omega
        rw [List.getElem?_append_right (by rw [paged_length]; omega), paged_length,
          Nat.add_sub_cancel_left, List.getElem?_eq_getElem (by rw [slice_length]; exact ho),
          slice_getElem]

/-- Blocks hold a list exactly when every cell does. -/
theorem take_paged_iff (m : Int → β) (base : Nat → Int) (size n : Nat) (xs : List β)
    (hsize : 0 < size) (hfit : xs.length ≤ n * size) :
    (paged m base size n).take xs.length = xs
      ↔ ∀ p o : Nat, o < size → p * size + o < xs.length →
        xs[p * size + o]? = some (m (base p + (o : Int))) := by
  -- A position inside the list is in one of its pages.
  have hblock : ∀ p o : Nat, p * size + o < xs.length → p < n := by
    intro p o hlt
    by_contra hge
    have hmul : n * size ≤ p * size := Nat.mul_le_mul_right size (by omega)
    omega
  constructor
  · intro htake p o ho hlt
    rw [← htake, List.getElem?_take_of_lt hlt]
    exact paged_getElem? m base size n p o (hblock p o hlt) ho
  · intro hcells
    refine List.ext_getElem? fun k => ?_
    by_cases hk : k < xs.length
    · -- Every index is a page and an offset in it.
      have hsplit : k / size * size + k % size = k := Nat.div_add_mod' k size
      have hmod : k % size < size := Nat.mod_lt k hsize
      have hin : k / size * size + k % size < xs.length := by omega
      rw [List.getElem?_take_of_lt hk, ← hsplit,
        paged_getElem? m base size n _ _ (hblock _ _ hin) hmod, hcells _ _ hmod hin]
    · rw [List.getElem?_eq_none (by rw [List.length_take]; omega),
        List.getElem?_eq_none (by omega)]

end Cells
