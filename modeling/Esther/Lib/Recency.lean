import Mathlib.Data.List.Basic
import Mathlib.Data.List.Nodup
import Mathlib.Data.List.Pairwise
import Mathlib.Logic.Function.Basic

/-!
# Use and Order

A list that is meant to be in the order in which its elements were last used.

An element that is used is moved to the back, and then it stands where it belongs, or it
is left where it is, with elements behind it that have been used less recently. Two
elements stand in the wrong order exactly when the one behind has not been used since
the one in front was used without being moved. So it is enough to remember, for each
element, what stood behind it then and has not been used since.

## Main definitions

* `Uses`: A list, a clock, and when its elements were last used.
* `Uses.inPlace`, `Uses.toBack`: An element is used and stays, or goes to the back.
* `Uses.Sound`: Which elements stand in the wrong order.

## Theorems

* `sound_inPlace`, `sound_toBack`: A use of either kind.
* `getElem?_back`: The list with an element at the back, index by index.
* `oldest_first_iff`: When the first element is the one used least recently.
-/

namespace Recency

variable {ι : Type*}

/-- The list, the time, the time of the last use of each element, zero if there was none,
    and the elements that stood behind it then and have not been used since. -/
structure Uses (ι : Type*) where
  order : List ι
  clock : Nat
  last : ι → Nat
  behind : ι → List ι

/-- Nothing has been used. -/
def Uses.start (order : List ι) : Uses ι :=
  { order := order, clock := 0, last := fun _ => 0, behind := fun _ => [] }

section Use

variable [DecidableEq ι]

/-- A use of `x` with some elements behind it. -/
def Uses.mark (u : Uses ι) (x : ι) (rest : List ι) : Uses ι :=
  { u with
    clock := u.clock + 1
    last := Function.update u.last x (u.clock + 1)
    behind := fun y => if y = x then rest else (u.behind y).filter fun z => z ≠ x }

/-- The element at an index is used where it stands. -/
def Uses.inPlace (u : Uses ι) (i : Nat) : Uses ι :=
  match u.order[i]? with
  | some x => u.mark x (u.order.drop (i + 1))
  | none => u

/-- The element at an index is used and goes to the back. -/
def Uses.toBack (u : Uses ι) (i : Nat) : Uses ι :=
  match u.order[i]? with
  | some x => { u.mark x [] with order := u.order.eraseIdx i ++ [x] }
  | none => u

end Use

/-- Times are distinct, and of two elements the one behind has been used less recently if
    and only if it stood behind the other one and has not been used since. -/
structure Uses.Sound (u : Uses ι) : Prop where
  nodup : u.order.Nodup
  bound : ∀ x, u.last x ≤ u.clock
  distinct : ∀ x y, u.last x = u.last y → u.last x ≠ 0 → x = y
  inside : ∀ x, ∀ y ∈ u.behind x, y ∈ u.order ∧ y ≠ x
  sorted : u.order.Pairwise fun x y => u.last y < u.last x ↔ y ∈ u.behind x

theorem sound_start (order : List ι) (h : order.Nodup) : (Uses.start order).Sound := by
  refine ⟨h, fun x => Nat.le_refl 0, fun x y _ hne => absurd rfl hne,
    fun x y hy => absurd hy List.not_mem_nil, ?_⟩
  refine List.Pairwise.imp (fun _ => ?_) h
  exact iff_of_false (Nat.lt_irrefl 0) List.not_mem_nil

/-- An index splits the list. -/
theorem split_at (order : List ι) (i : Nat) (x : ι) (h : order[i]? = some x) :
    ∃ front rest, order = front ++ x :: rest ∧ order.drop (i + 1) = rest ∧
      order.eraseIdx i = front ++ rest := by
  rcases List.getElem?_eq_some_iff.mp h with ⟨hi, hget⟩
  refine ⟨order.take i, order.drop (i + 1), ?_, rfl, List.eraseIdx_eq_take_drop_succ order i⟩
  rw [← hget, ← List.drop_eq_getElem_cons hi, List.take_append_drop]

section Marks

variable [DecidableEq ι]

theorem last_mark_self (u : Uses ι) (x : ι) (rest : List ι) :
    (u.mark x rest).last x = u.clock + 1 := Function.update_self ..

theorem last_mark_of_ne (u : Uses ι) (x y : ι) (rest : List ι) (h : y ≠ x) :
    (u.mark x rest).last y = u.last y := Function.update_of_ne h ..

theorem behind_mark_self (u : Uses ι) (x : ι) (rest : List ι) :
    (u.mark x rest).behind x = rest := if_pos rfl

theorem mem_behind_mark (u : Uses ι) (x y z : ι) (rest : List ι) (h : y ≠ x) :
    z ∈ (u.mark x rest).behind y ↔ z ∈ u.behind y ∧ z ≠ x := by
  show z ∈ (if y = x then rest else (u.behind y).filter fun z => z ≠ x) ↔ _
  rw [if_neg h, List.mem_filter, decide_eq_true_iff]

/-- What has been used has been used. -/
theorem last_mark_ne_zero (u : Uses ι) (x y : ι) (rest : List ι) (h : y = x ∨ u.last y ≠ 0) :
    (u.mark x rest).last y ≠ 0 := by
  by_cases hy : y = x
  · rw [hy, last_mark_self]
    exact Nat.succ_ne_zero _
  · rw [last_mark_of_ne u x y rest hy]
    exact h.resolve_left hy

/-- The times after a use. -/
theorem times_mark (u : Uses ι) (x : ι) (rest : List ι) (h : u.Sound) :
    (∀ y, (u.mark x rest).last y ≤ u.clock + 1) ∧
    ∀ y z, (u.mark x rest).last y = (u.mark x rest).last z → (u.mark x rest).last y ≠ 0 →
      y = z := by
  have hold : ∀ y, y ≠ x → (u.mark x rest).last y ≤ u.clock := fun y hy => by
    rw [last_mark_of_ne u x y rest hy]
    exact h.bound y
  refine ⟨fun y => ?_, fun y z heq hne => ?_⟩
  · by_cases hy : y = x
    · rw [hy]
      exact Nat.le_of_eq (last_mark_self u x rest)
    · exact Nat.le_succ_of_le (hold y hy)
  · -- The time of the use is later than all others.
    by_cases hy : y = x
    · by_cases hz : z = x
      · rw [hy, hz]
      · have hlt := hold z hz
        rw [← heq, hy, last_mark_self] at hlt
        omega
    · by_cases hz : z = x
      · have hlt := hold y hy
        rw [heq, hz, last_mark_self] at hlt
        omega
      · rw [last_mark_of_ne u x y rest hy] at heq hne
        rw [last_mark_of_ne u x z rest hz] at heq
        exact h.distinct y z heq hne

/-- Two other elements stand as they stood. -/
theorem sorted_mark (u : Uses ι) (x y z : ι) (rest : List ι) (hy : y ≠ x) (hz : z ≠ x)
    (h : u.last z < u.last y ↔ z ∈ u.behind y) :
    (u.mark x rest).last z < (u.mark x rest).last y ↔ z ∈ (u.mark x rest).behind y := by
  rw [last_mark_of_ne u x y rest hy, last_mark_of_ne u x z rest hz,
    mem_behind_mark u x y z rest hy, h]
  exact (and_iff_left hz).symm

/-- An element that has just been used is not behind its place. -/
theorem sorted_mark_last (u : Uses ι) (x y : ι) (rest : List ι) (h : u.Sound) (hy : y ≠ x) :
    (u.mark x rest).last x < (u.mark x rest).last y ↔ x ∈ (u.mark x rest).behind y := by
  refine iff_of_false ?_ fun hmem => ((mem_behind_mark u x y x rest hy).mp hmem).2 rfl
  have hbound := h.bound y
  rw [last_mark_self, last_mark_of_ne u x y rest hy]
  omega

theorem sound_inPlace (u : Uses ι) (i : Nat) (h : u.Sound) : (u.inPlace i).Sound := by
  unfold Uses.inPlace
  cases hx : u.order[i]? with
  | none => exact h
  | some x =>
      rcases split_at u.order i x hx with ⟨front, rest, horder, hdrop, _⟩
      rw [hdrop]
      have hnodup := h.nodup
      have hsorted := h.sorted
      rw [horder] at hnodup hsorted
      rcases List.nodup_append'.mp hnodup with ⟨_, hrest, hdisjoint⟩
      have hfront : ∀ y ∈ front, y ≠ x := fun y hy hc =>
        hdisjoint hy (hc ▸ List.mem_cons_self)
      have hbehind : ∀ y ∈ rest, y ≠ x := fun y hy hc =>
        (List.nodup_cons.mp hrest).1 (hc ▸ hy)
      rcases List.pairwise_append.mp hsorted with ⟨hpairs, hpairs', hcross⟩
      rcases List.pairwise_cons.mp hpairs' with ⟨_, hpairs'⟩
      rcases times_mark u x rest h with ⟨hbound, hdistinct⟩
      refine ⟨h.nodup, hbound, hdistinct, fun y z hz => ?_, ?_⟩
      · by_cases hy : y = x
        · rw [hy, behind_mark_self] at hz
          refine ⟨?_, hy ▸ hbehind z hz⟩
          show z ∈ u.order
          rw [horder]
          exact List.mem_append_right _ (List.mem_cons_of_mem x hz)
        · exact h.inside y z ((mem_behind_mark u x y z rest hy).mp hz).1
      · show u.order.Pairwise _
        rw [horder, List.pairwise_append, List.pairwise_cons]
        refine ⟨?_, ⟨fun z hz => ?_, ?_⟩, fun y hy z hz => ?_⟩
        · exact hpairs.imp_of_mem fun {y z} hy hz hyz =>
            sorted_mark u x y z rest (hfront y hy) (hfront z hz) hyz
        · -- Those behind are less recent now, all of them.
          have hold := h.bound z
          rw [behind_mark_self, last_mark_self, last_mark_of_ne u x z rest (hbehind z hz)]
          exact iff_of_true (by omega) hz
        · exact hpairs'.imp_of_mem fun {y z} hy hz hyz =>
            sorted_mark u x y z rest (hbehind y hy) (hbehind z hz) hyz
        · by_cases heq : z = x
          · rw [heq]
            exact sorted_mark_last u x y rest h (hfront y hy)
          · exact sorted_mark u x y z rest (hfront y hy) heq (hcross y hy z hz)

theorem sound_toBack (u : Uses ι) (i : Nat) (h : u.Sound) : (u.toBack i).Sound := by
  unfold Uses.toBack
  cases hx : u.order[i]? with
  | none => exact h
  | some x =>
      -- The one used is taken out of its place, and the others stay in order.
      rcases split_at u.order i x hx with ⟨front, rest, horder, _, herase⟩
      have hnodup := h.nodup
      have hsorted := h.sorted
      rw [horder] at hnodup hsorted
      rcases List.nodup_cons.mp (List.perm_middle.nodup_iff.mp hnodup) with ⟨hout, hothers⟩
      have hne : ∀ y ∈ front ++ rest, y ≠ x := fun y hy hc => hout (hc ▸ hy)
      rcases times_mark u x [] h with ⟨hbound, hdistinct⟩
      have hmem : ∀ y, y ∈ u.order ↔ y ∈ front ++ rest ++ [x] := by
        intro y
        rw [horder]
        simp only [List.mem_append, List.mem_cons, List.not_mem_nil, or_false]
        rw [or_assoc, or_comm (a := y = x)]
      have hpairs : (front ++ rest).Pairwise fun y z => u.last z < u.last y ↔ z ∈ u.behind y :=
        hsorted.sublist (List.Sublist.append_left (List.sublist_cons_self x rest) front)
      refine ⟨?_, hbound, hdistinct, fun y z hz => ?_, ?_⟩
      · show (u.order.eraseIdx i ++ [x]).Nodup
        rw [herase]
        exact (List.perm_append_singleton x _).nodup_iff.mpr (List.nodup_cons.mpr ⟨hout, hothers⟩)
      · show z ∈ u.order.eraseIdx i ++ [x] ∧ z ≠ y
        rw [herase, ← hmem]
        by_cases hy : y = x
        · have hz : z ∈ (u.mark x []).behind x := hy ▸ hz
          rw [behind_mark_self] at hz
          exact absurd hz List.not_mem_nil
        · exact h.inside y z ((mem_behind_mark u x y z [] hy).mp hz).1
      · show (u.order.eraseIdx i ++ [x]).Pairwise fun y z =>
          (u.mark x []).last z < (u.mark x []).last y ↔ z ∈ (u.mark x []).behind y
        rw [herase, List.pairwise_append]
        refine ⟨?_, List.pairwise_singleton _ _, fun y hy z hz => ?_⟩
        · exact hpairs.imp_of_mem fun {y z} hy hz hyz =>
            sorted_mark u x y z [] (hne y hy) (hne z hz) hyz
        · rw [List.mem_singleton.mp hz]
          exact sorted_mark_last u x y [] h (hne y hy)

end Marks

section Indices

/-- Where the element at index `j` was before the one at index `i` went to the back of a list
    of length `n`. -/
def backIndex (n i j : Nat) : Nat :=
  if j + 1 < n then if j < i then j else j + 1
  else if j + 1 = n then i else j

theorem getElem?_back {α : Type*} (l : List α) (i j : Nat) (a : α) (h : l[i]? = some a) :
    (l.eraseIdx i ++ [a])[j]? = l[backIndex l.length i j]? := by
  rcases List.getElem?_eq_some_iff.mp h with ⟨hi, _⟩
  have hlength : (l.eraseIdx i).length = l.length - 1 := List.length_eraseIdx_of_lt hi
  unfold backIndex
  by_cases hin : j + 1 < l.length
  · rw [if_pos hin, List.getElem?_append_left (by omega), List.getElem?_eraseIdx]
    split <;> rfl
  · rw [if_neg hin, List.getElem?_append_right (by omega), hlength]
    by_cases hlast : j + 1 = l.length
    · rw [if_pos hlast, h, show j - (l.length - 1) = 0 by omega]
      rfl
    · rw [if_neg hlast, List.getElem?_eq_none (by simp only [List.length_singleton]; omega),
        List.getElem?_eq_none (by omega)]

end Indices

/-- When all have been used, the first element is the one used least recently if and only if
    everything that stood behind it when it was last used has been used since. -/
theorem oldest_first_iff (u : Uses ι) (x : ι) (rest : List ι) (h : u.Sound)
    (horder : u.order = x :: rest) (hused : ∀ y ∈ u.order, u.last y ≠ 0) :
    (∀ y ∈ u.order, y ≠ x → u.last x < u.last y) ↔ u.behind x = [] := by
  have hsorted := h.sorted
  have hnodup := h.nodup
  rw [horder] at hsorted hnodup
  rcases List.pairwise_cons.mp hsorted with ⟨hfirst, _⟩
  constructor
  · intro hall
    rw [List.eq_nil_iff_forall_not_mem]
    intro y hy
    rcases h.inside x y hy with ⟨hmem, hne⟩
    have hlt := hall y hmem hne
    rw [horder] at hmem
    have hlater := (hfirst y (List.mem_of_ne_of_mem hne hmem)).mpr hy
    omega
  · intro hnone y hmem hne
    have hrest : y ∈ rest := List.mem_of_ne_of_mem hne (horder ▸ hmem)
    have hnot : ¬ u.last y < u.last x := fun hlt => by
      have hin := (hfirst y hrest).mp hlt
      rw [hnone] at hin
      exact absurd hin List.not_mem_nil
    -- Different elements have been used at different times.
    have hne' : u.last x ≠ u.last y := fun heq =>
      hne (h.distinct y x heq.symm (hused y hmem))
    omega

end Recency
