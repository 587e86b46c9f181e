import Esther.Lib.Chain
import Mathlib.Algebra.Order.Group.Nat
import Mathlib.Data.Finset.Card

/-!
# Chains that Divide a Heap

Chains of cells in one heap, each with an owner.

The heap had some cells before there were chains, and these are nobody's. A cell that has
come since then is in the chain of one owner, and in no other. A change of one chain, at its
own cells and at new ones, leaves those of the others as they are. Whether it also leaves no
cell that is in no chain can be seen from two numbers: how many cells the heap has, and how
many the chain has.

## Main definitions

* `Exact`: A change of a chain that leaves no cell behind.
* `Parcelled`: The chains divide the cells that have come.

## Theorems

* `exact_of_card`: What the two numbers say.
* `parcelled_change`: One chain changes.
* `parcelled_free`: Without chains the heap is what it was.
-/

namespace Parcels

open Chain

variable {ι κ α : Type*}

/-- Each cell there is after a change of a chain is in the chain, or was there and not in it. -/
def Exact (h : κ → Option (Cell κ α)) (nodes : List (κ × α)) (h' : κ → Option (Cell κ α))
    (nodes' : List (κ × α)) : Prop :=
  ∀ a, (h' a).isSome = true → a ∈ addresses nodes' ∨ a ∉ addresses nodes ∧ (h a).isSome = true

/-- The chains of the owners, in a heap that had some other cells. -/
structure Parcelled (h₀ h : κ → Option (Cell κ α)) (nodes : ι → List (κ × α)) : Prop where
  linked : ∀ i, Linked h none (nodes i) none
  apart : ∀ i j, i ≠ j → ∀ a ∈ addresses (nodes i), a ∉ addresses (nodes j)
  others : ∀ a cell, h₀ a = some cell → h a = some cell
  fresh : ∀ i, ∀ a ∈ addresses (nodes i), h₀ a = none
  exact : ∀ a, (h a).isSome = true → (h₀ a).isSome = true ∨ ∃ i, a ∈ addresses (nodes i)

theorem isSome_of_linked (h : κ → Option (Cell κ α)) (prev next : Option κ)
    (nodes : List (κ × α)) (hl : Linked h prev nodes next) (a : κ) (ha : a ∈ addresses nodes) :
    (h a).isSome = true :=
  Option.isSome_iff_exists.mpr (exists_of_linked h prev next nodes hl a ha)

/-! ### Counting -/

/-- A change of a chain that makes the heap grow by as many cells as the chain. -/
theorem exact_of_card [DecidableEq κ] (h h' : κ → Option (Cell κ α)) (cells cells' : Finset κ)
    (nodes nodes' : List (κ × α)) (hcells : ∀ a, a ∈ cells ↔ (h a).isSome = true)
    (hcells' : ∀ a, a ∈ cells' ↔ (h' a).isSome = true) (hlinked : Linked h none nodes none)
    (hlinked' : Linked h' none nodes' none) (hnodup : (addresses nodes).Nodup)
    (hnodup' : (addresses nodes').Nodup) (hlocal : Local h nodes h' nodes')
    (hcard : cells'.card + nodes.length = cells.card + nodes'.length) :
    Exact h nodes h' nodes' := by
  have hsub : (addresses nodes).toFinset ⊆ cells := by
    intro a ha
    rw [List.mem_toFinset] at ha
    exact (hcells a).mpr (isSome_of_linked h none none nodes hlinked a ha)
  -- The cells that are not of the chain are still there, and so are those it has now.
  have hkept : cells \ (addresses nodes).toFinset ∪ (addresses nodes').toFinset ⊆ cells' := by
    intro a ha
    rw [hcells']
    rcases Finset.mem_union.mp ha with hold | hnew
    · rw [Finset.mem_sdiff, hcells, List.mem_toFinset] at hold
      rcases Option.isSome_iff_exists.mp hold.1 with ⟨cell, hcell⟩
      exact Option.isSome_iff_exists.mpr ⟨cell, hlocal.keeps a cell hold.2 hcell⟩
    · rw [List.mem_toFinset] at hnew
      exact isSome_of_linked h' none none nodes' hlinked' a hnew
  have hdisjoint : Disjoint (cells \ (addresses nodes).toFinset) (addresses nodes').toFinset := by
    rw [Finset.disjoint_left]
    intro a hold hnew
    rw [Finset.mem_sdiff, hcells, List.mem_toFinset] at hold
    rw [List.mem_toFinset] at hnew
    rcases hlocal.fresh a hnew with hmem | hnone
    · exact hold.2 hmem
    · rw [hnone] at hold
      exact Bool.false_ne_true hold.1
  have hlength : (addresses nodes).toFinset.card = nodes.length := by
    rw [List.toFinset_card_of_nodup hnodup, addresses, List.length_map]
  have hlength' : (addresses nodes').toFinset.card = nodes'.length := by
    rw [List.toFinset_card_of_nodup hnodup', addresses, List.length_map]
  -- There is no room for a cell that is neither.
  have hall : cells \ (addresses nodes).toFinset ∪ (addresses nodes').toFinset = cells' := by
    refine Finset.eq_of_subset_of_card_le hkept ?_
    have hle := Finset.card_le_card hsub
    rw [Finset.card_union_of_disjoint hdisjoint, Finset.card_sdiff_of_subset hsub, hlength']
    omega
  intro a ha
  rw [← hcells', ← hall, Finset.mem_union, Finset.mem_sdiff, hcells, List.mem_toFinset,
    List.mem_toFinset] at ha
  rcases ha with hold | hnew
  · exact Or.inr ⟨hold.2, hold.1⟩
  · exact Or.inl hnew

/-! ### Owners -/

theorem parcelled_start (h : κ → Option (Cell κ α)) :
    Parcelled h h fun _ : ι => [] where
  linked := fun _ => trivial
  apart := fun _ _ _ _ _ => List.not_mem_nil
  others := fun _ _ hcell => hcell
  fresh := fun _ _ ha => absurd ha List.not_mem_nil
  exact := fun _ ha => Or.inl ha

/-- The chain of one owner is a change of the heap as it was at first. -/
theorem parcelled_local (h₀ h : κ → Option (Cell κ α)) (nodes : ι → List (κ × α))
    (hp : Parcelled h₀ h nodes) (i : ι) : Local h₀ [] h (nodes i) :=
  ⟨fun a cell _ hcell => hp.others a cell hcell, fun a ha => Or.inr (hp.fresh i a ha)⟩

/-- The chains of the others stay linked when one changes. -/
theorem parcelled_linked (h₀ h h' : κ → Option (Cell κ α)) (nodes : ι → List (κ × α))
    (hp : Parcelled h₀ h nodes) (i j : ι) (hne : j ≠ i) (nodes' : List (κ × α))
    (hlocal : Local h (nodes i) h' nodes') : Linked h' none (nodes j) none :=
  linked_of_local h h' (nodes i) nodes' hlocal none none (nodes j) (hp.apart j i hne)
    (hp.linked j)

/-- The chain of one owner changes and leaves no cell behind. -/
theorem parcelled_change [DecidableEq ι] (h₀ h h' : κ → Option (Cell κ α))
    (nodes : ι → List (κ × α)) (hp : Parcelled h₀ h nodes) (i : ι) (nodes' : List (κ × α))
    (hlocal : Local h (nodes i) h' nodes') (hexact : Exact h (nodes i) h' nodes')
    (hlinked : Linked h' none nodes' none) :
    Parcelled h₀ h' (Function.update nodes i nodes') := by
  -- A cell of the new chain was one of the old, or was free: nobody else's in either case.
  have hapart : ∀ j, j ≠ i → ∀ a ∈ addresses nodes', a ∉ addresses (nodes j) := by
    intro j hne a ha hmem
    rcases hlocal.fresh a ha with hold | hnone
    · exact hp.apart j i hne a hmem hold
    · have hsome := isSome_of_linked h none none (nodes j) (hp.linked j) a hmem
      rw [hnone] at hsome
      exact Bool.false_ne_true hsome
  refine ⟨?_, ?_, ?_, ?_, ?_⟩
  · intro j
    by_cases hj : j = i
    · rw [hj, Function.update_self]
      exact hlinked
    · rw [Function.update_of_ne hj]
      exact parcelled_linked h₀ h h' nodes hp i j hj nodes' hlocal
  · intro j k hne a
    by_cases hj : j = i
    · rw [hj, Function.update_self, Function.update_of_ne (hj ▸ hne.symm)]
      exact hapart k (hj ▸ hne.symm) a
    · rw [Function.update_of_ne hj]
      by_cases hk : k = i
      · rw [hk, Function.update_self]
        intro ha hmem
        exact hapart j hj a hmem ha
      · rw [Function.update_of_ne hk]
        exact hp.apart j k hne a
  · intro a cell hcell
    refine hlocal.keeps a cell ?_ (hp.others a cell hcell)
    intro hmem
    exact absurd (hcell.symm.trans (hp.fresh i a hmem)) (Option.some_ne_none cell)
  · intro j a
    by_cases hj : j = i
    · rw [hj, Function.update_self]
      intro ha
      rcases hlocal.fresh a ha with hold | hnone
      · exact hp.fresh i a hold
      · cases hcell : h₀ a with
        | none => rfl
        | some cell =>
            exact absurd ((hp.others a cell hcell).symm.trans hnone) (Option.some_ne_none cell)
    · rw [Function.update_of_ne hj]
      exact hp.fresh j a
  · -- No cell is lost: it is of the new chain, or belonged to somebody before.
    intro a ha
    rcases hexact a ha with hnew | ⟨hnot, hold⟩
    · refine Or.inr ⟨i, ?_⟩
      rwa [Function.update_self]
    · rcases hp.exact a hold with hfirst | ⟨j, hj⟩
      · exact Or.inl hfirst
      · have hne : j ≠ i := by
          rintro rfl
          exact hnot hj
        refine Or.inr ⟨j, ?_⟩
        rwa [Function.update_of_ne hne]

/-- When no owner has a cell, the heap is what it was at first. -/
theorem parcelled_free (h₀ h : κ → Option (Cell κ α)) (nodes : ι → List (κ × α))
    (hp : Parcelled h₀ h nodes) (hempty : ∀ i, nodes i = []) : h = h₀ := by
  funext a
  cases hfirst : h₀ a with
  | some cell => exact hp.others a cell hfirst
  | none =>
      cases hcell : h a with
      | none => rfl
      | some cell =>
          rcases hp.exact a (Option.isSome_iff_exists.mpr ⟨cell, hcell⟩) with hsome | ⟨i, hi⟩
          · rw [hfirst] at hsome
            exact absurd hsome Bool.false_ne_true
          · rw [hempty i] at hi
            exact absurd hi List.not_mem_nil

end Parcels
