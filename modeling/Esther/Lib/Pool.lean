import Mathlib.Data.List.Count
import Mathlib.Logic.Function.Basic

/-!
# Pools of Workers

Workers that are on a list of free ones or a list of busy ones, and have work.

A manager takes workers off the front of `free` to give them something to do, puts them
on `busy`, and puts them back when they report that they have done it. How much a worker
has and has not reported is its *load*. A worker cannot see the lists and the manager
cannot see the load, so nothing but the order in which things happen keeps a free worker
without work.

`Sound` is the invariant of a pool in which everything is reported once. There is one
lemma for each thing that happens to a pool.

## Main definitions

* `Sound`: A worker is on one of the lists, once; a free one has no work, and nobody has
  more than one piece.

## Theorems

* `sound_mono`: Workers may lose work.
* `sound_join`: A worker joins.
* `sound_lend`: The first free worker is given something.
* `sound_report`: A worker reports that it is done.
-/

namespace Pool

variable {ι : Type*} [DecidableEq ι]

/-- Every member is in `free` and `busy` taken together once, and nobody else is; who is
    free has no load, and nobody has more than one. -/
structure Sound (member : ι → Prop) (free busy : List ι) (load : ι → Nat) : Prop where
  once : ∀ c, member c → (free ++ busy).count c = 1
  gone : ∀ c, ¬ member c → (free ++ busy).count c = 0
  idle : ∀ c, c ∈ free → load c = 0
  single : ∀ c, load c ≤ 1

theorem sound_empty (member : ι → Prop) (load : ι → Nat) (hmember : ∀ c, ¬ member c)
    (hload : ∀ c, load c = 0) : Sound member [] [] load where
  once := fun c hc => absurd hc (hmember c)
  gone := fun _ _ => rfl
  idle := fun _ hc => absurd hc List.not_mem_nil
  single := fun c => by
    rw [hload c]
    exact Nat.zero_le 1

/-- No worker is on the lists twice, member or not. -/
theorem sound_count_le (member : ι → Prop) (free busy : List ι) (load : ι → Nat)
    (h : Sound member free busy load) (c : ι) : (free ++ busy).count c ≤ 1 := by
  by_cases hc : member c
  · exact Nat.le_of_eq (h.once c hc)
  · rw [h.gone c hc]
    exact Nat.zero_le 1

/-- A worker on the lists that has work is busy. -/
theorem sound_busy (member : ι → Prop) (free busy : List ι) (load : ι → Nat)
    (h : Sound member free busy load) (c : ι) (hc : c ∈ free ++ busy) (hload : load c ≠ 0) :
    c ∉ free ∧ c ∈ busy := by
  have hfree : c ∉ free := fun hmem => hload (h.idle c hmem)
  rcases List.mem_append.mp hc with hmem | hmem
  · exact absurd hmem hfree
  · exact ⟨hfree, hmem⟩

theorem sound_mono (member : ι → Prop) (free busy : List ι) (load load' : ι → Nat)
    (h : Sound member free busy load) (hle : ∀ c, load' c ≤ load c) :
    Sound member free busy load' where
  once := h.once
  gone := h.gone
  idle := fun c hc => Nat.le_zero.mp (h.idle c hc ▸ hle c)
  single := fun c => Nat.le_trans (hle c) (h.single c)

/-- A worker that was no member joins, with no work. -/
theorem sound_join (member member' : ι → Prop) (free busy : List ι) (load load' : ι → Nat)
    (new : ι) (h : Sound member free busy load) (hnew : ¬ member new)
    (hmember : ∀ c, member' c ↔ member c ∨ c = new) (hload : load' new = 0)
    (hrest : ∀ c, c ≠ new → load' c = load c) : Sound member' (free ++ [new]) busy load' := by
  -- The new one is counted once more, and nothing else is.
  have hcount : ∀ c, (free ++ [new] ++ busy).count c
      = (free ++ busy).count c + if c = new then 1 else 0 := by
    intro c
    by_cases hc : c = new
    · subst hc
      simp only [List.count_append, List.count_singleton_self, if_true]
      omega
    · simp only [List.count_append, List.count_singleton, beq_iff_eq, if_neg (Ne.symm hc),
        if_neg hc]
      omega
  refine ⟨fun c hc => ?_, fun c hc => ?_, fun c hc => ?_, fun c => ?_⟩
  · rw [hcount]
    by_cases heq : c = new
    · rw [if_pos heq, heq, h.gone new hnew]
    · rw [if_neg heq, h.once c (((hmember c).mp hc).resolve_right heq)]
  · rw [hmember, not_or] at hc
    rw [hcount, if_neg hc.2, h.gone c hc.1]
  · by_cases heq : c = new
    · rw [heq, hload]
    · rcases List.mem_append.mp hc with hmem | hmem
      · rw [hrest c heq, h.idle c hmem]
      · exact absurd (List.mem_singleton.mp hmem) heq
  · by_cases heq : c = new
    · rw [heq, hload]
      exact Nat.zero_le 1
    · rw [hrest c heq]
      exact h.single c

/-- The first free worker is given one piece of work. -/
theorem sound_lend (member : ι → Prop) (free busy : List ι) (load load' : ι → Nat) (first : ι)
    (h : Sound member (first :: free) busy load) (hload : load' first = load first + 1)
    (hrest : ∀ c, c ≠ first → load' c = load c) : Sound member free (busy ++ [first]) load' := by
  have hcount : ∀ c, (free ++ (busy ++ [first])).count c = (first :: free ++ busy).count c := by
    intro c
    simp only [List.count_append, List.cons_append, List.count_cons, List.count_nil]
    omega
  have hfirst := h.idle first List.mem_cons_self
  -- It is not among the free ones a second time.
  have hnot : first ∉ free := by
    intro hmem
    have hle := sound_count_le member _ _ _ h first
    have hpos := List.count_pos_iff.mpr hmem
    simp only [List.cons_append, List.count_cons_self, List.count_append] at hle
    omega
  refine ⟨fun c hc => ?_, fun c hc => ?_, fun c hc => ?_, fun c => ?_⟩
  · rw [hcount]
    exact h.once c hc
  · rw [hcount]
    exact h.gone c hc
  · have hne : c ≠ first := fun heq => hnot (heq ▸ hc)
    rw [hrest c hne]
    exact h.idle c (List.mem_cons_of_mem first hc)
  · by_cases heq : c = first
    · subst heq
      omega
    · rw [hrest c heq]
      exact h.single c

/-- A worker reports that it has nothing left to do. It is taken off the list of busy
    ones, wherever it is there, and is free. -/
theorem sound_report (member : ι → Prop) (free busy : List ι) (load load' : ι → Nat) (done : ι)
    (h : Sound member free busy load) (hmem : done ∈ free ++ busy) (hbusy : load done ≠ 0)
    (hload : load' done = 0) (hrest : ∀ c, c ≠ done → load' c = load c) :
    Sound member (free ++ [done]) (busy.filter fun c => !(c == done)) load' := by
  rcases sound_busy member free busy load h done hmem hbusy with ⟨hfree, hin⟩
  have hone : (free ++ busy).count done = 1 := by
    have hle := sound_count_le member free busy load h done
    have hpos := List.count_pos_iff.mpr hmem
    omega
  have hcount : ∀ c, (free ++ [done] ++ busy.filter fun c => !(c == done)).count c
      = (free ++ busy).count c := by
    intro c
    by_cases hc : c = done
    -- What was on the other list is on this one.
    · subst hc
      rw [hone]
      have hgone : (busy.filter fun other => !(other == c)).count c = 0 := by
        rw [List.count_eq_zero]
        simp
      simp only [List.count_append, List.count_singleton_self, List.count_eq_zero.mpr hfree, hgone]
    · have hkeep : (busy.filter fun other => !(other == done)).count c = busy.count c :=
        List.count_filter (by simp [hc])
      simp only [List.count_append, hkeep, List.count_singleton, beq_iff_eq,
        if_neg (Ne.symm hc)]
      omega
  refine ⟨fun c hc => ?_, fun c hc => ?_, fun c hc => ?_, fun c => ?_⟩
  · rw [hcount]
    exact h.once c hc
  · rw [hcount]
    exact h.gone c hc
  · by_cases heq : c = done
    · rw [heq, hload]
    · rcases List.mem_append.mp hc with hold | hnew
      · rw [hrest c heq, h.idle c hold]
      · exact absurd (List.mem_singleton.mp hnew) heq
  · by_cases heq : c = done
    · rw [heq, hload]
      exact Nat.zero_le 1
    · rw [hrest c heq]
      exact h.single c

end Pool
