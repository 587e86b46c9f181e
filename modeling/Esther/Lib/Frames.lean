import Mathlib.Data.List.Nodup
import Mathlib.Data.List.Perm.Basic
import Mathlib.Tactic.Ring

/-!
# Frames on a Stack

Frames that are put one above the other, each a list of addresses.

A frame holds places of one size without gaps. Addresses are given out at the top of the
stack and to the frame that was opened last, so that a frame is a block of consecutive
places, the next one begins where it ends, and all of them together are a block as well.
In which order a frame lists its addresses is left open.

## Main definitions

* `block`: Consecutive places.
* `Stacked`: The frames are consecutive blocks.

## Theorems

* `stacked_append`: Frames below and frames above.
* `stacked_call`, `stacked_push`, `stacked_return`: What is done to the last frame.
* `stacked_flatten`: All the frames together.
* `block_nodup`: No place twice.
-/

namespace Frames

/-- The first `n` places of size `u` from `base` on. -/
def block (u base : Int) (n : Nat) : List Int :=
  (List.range n).map fun k : Nat => base + u * (k : Int)

@[simp] theorem block_length (u base : Int) (n : Nat) : (block u base n).length = n := by
  rw [block, List.length_map, List.length_range]

theorem block_succ (u base : Int) (n : Nat) :
    block u base (n + 1) = block u base n ++ [base + u * (n : Int)] := by
  rw [block, block, List.range_succ, List.map_append, List.map_singleton]

theorem block_add (u base : Int) (m n : Nat) :
    block u base (m + n) = block u base m ++ block u (base + u * (m : Int)) n := by
  induction n with
  | zero => simp only [Nat.add_zero, block, List.range_zero, List.map_nil, List.append_nil]
  | succ n ih =>
      rw [← Nat.add_assoc, block_succ, ih, block_succ, List.append_assoc, Nat.cast_add]
      congr 3
      ring

/-- No place is in a block twice. -/
theorem block_nodup (u base : Int) (n : Nat) (hu : 0 < u) : (block u base n).Nodup := by
  refine List.Nodup.map (fun i j hij => ?_) List.nodup_range
  have hmul : u * (i : Int) = u * (j : Int) := by omega
  exact Int.natCast_inj.mp (Int.eq_of_mul_eq_mul_left (by omega) hmul)

/-- From `base` to `top`, each frame is the block above the one before. -/
def Stacked (u : Int) : Int → List (List Int) → Int → Prop
  | base, [], top => top = base
  | base, frame :: frames, top =>
      frame.Perm (block u base frame.length) ∧
        Stacked u (base + u * (frame.length : Int)) frames top

theorem stacked_append (u base : Int) (below above : List (List Int)) (top : Int) :
    Stacked u base (below ++ above) top ↔
      ∃ mid, Stacked u base below mid ∧ Stacked u mid above top := by
  induction below generalizing base with
  | nil => simp only [List.nil_append, Stacked, exists_eq_left]
  | cons frame below ih => simp only [List.cons_append, Stacked, ih, and_assoc, exists_and_left]

/-- A frame is opened. -/
theorem stacked_call (u base : Int) (frames : List (List Int)) (top : Int)
    (h : Stacked u base frames top) : Stacked u base (frames ++ [[]]) top := by
  refine (stacked_append u base frames [[]] top).mpr ⟨top, h, List.Perm.refl _, ?_⟩
  simp only [Stacked, List.length_nil, Int.natCast_zero, Int.mul_zero, Int.add_zero]

/-- The last frame is given the place at the top. -/
theorem stacked_push (u base : Int) (frames : List (List Int)) (frame frame' : List Int)
    (top : Int) (h : Stacked u base (frames ++ [frame]) top) (hframe : frame'.Perm (top :: frame)) :
    Stacked u base (frames ++ [frame']) (top + u) := by
  rcases (stacked_append u base frames [frame] top).mp h with ⟨mid, hbelow, hperm, htop⟩
  refine (stacked_append u base frames [frame'] (top + u)).mpr ⟨mid, hbelow, ?_, ?_⟩
  · rw [hframe.length_eq, List.length_cons, block_succ, ← htop]
    refine hframe.trans ((hperm.cons top).trans ?_)
    exact (List.perm_append_singleton _ _).symm
  · rw [Stacked, hframe.length_eq, List.length_cons, Nat.cast_add, htop]
    simp only [Nat.cast_one]
    ring

/-- The last frame is closed. -/
theorem stacked_return (u base : Int) (frames : List (List Int)) (frame : List Int) (top : Int)
    (h : Stacked u base (frames ++ [frame]) top) :
    Stacked u base frames (top - u * (frame.length : Int)) := by
  rcases (stacked_append u base frames [frame] top).mp h with ⟨mid, hbelow, _, htop⟩
  rw [htop, Int.add_sub_cancel]
  exact hbelow

/-- All the frames together are a block. -/
theorem stacked_flatten (u base : Int) (frames : List (List Int)) (top : Int)
    (h : Stacked u base frames top) :
    frames.flatten.Perm (block u base frames.flatten.length) ∧
      top = base + u * (frames.flatten.length : Int) := by
  induction frames generalizing base with
  | nil =>
      refine ⟨List.Perm.refl _, ?_⟩
      rw [show top = base from h]
      simp only [List.flatten_nil, List.length_nil, Int.natCast_zero, Int.mul_zero, Int.add_zero]
  | cons frame frames ih =>
      rcases ih _ h.2 with ⟨hperm, htop⟩
      rw [List.flatten_cons, List.length_append, block_add]
      refine ⟨h.1.append hperm, ?_⟩
      rw [htop, Nat.cast_add]
      ring

end Frames
