import Esther.Lib.Transition
import Mathlib.Data.List.Basic

/-!
# Taking Turns

Elements that come and go, first in first out or last in first out.

What is kept is the elements that wait, in the order in which they will go, together with
all that have come and all that have gone. Either discipline takes the first of those that
wait, and they differ in where a new element goes: behind the others or before them. A new
element that there is no room for is not taken.

`Law` says what that comes to. Nothing is lost and nothing goes twice. First in first out,
those that have gone and those that wait are, one after the other, those that have come.
Last in first out, those that wait stand in the opposite order of their coming, so that the
one that goes next is the last that has come and not gone.

## Main definitions

* `Discipline`, `Move`: The disciplines, and an element that comes or goes.
* `Line`, `Line.step`: Those that wait, those that have come, and those that have gone.
* `Law`: What is true of them.

## Theorems

* `law_step`, `law_run`: It stays true.
-/

namespace Turns

open Transition

variable {β : Type*}

/-- First in first out, or last in first out. -/
inductive Discipline
  | fifo
  | lifo
deriving DecidableEq

/-- An element comes, or the next one goes. -/
inductive Move (β : Type*)
  | push (element : β)
  | pop

/-- The elements that wait, in the order in which they will go, those that have come, those
    that have gone, and the one that has just gone. -/
structure Line (β : Type*) where
  waiting : List β
  pushed : List β
  popped : List β
  result : Option β
deriving DecidableEq

def Line.init : Line β := { waiting := [], pushed := [], popped := [], result := none }

/-- Where a new element goes. -/
def Discipline.join (d : Discipline) (waiting : List β) (element : β) : List β :=
  match d with
  | .fifo => waiting ++ [element]
  | .lifo => element :: waiting

/-- A move, where there is room for some numbers of elements. -/
def Line.step (fits : Nat → Bool) (d : Discipline) (s : Line β) : Move β → Option (Line β)
  | .push element =>
      if fits (s.waiting.length + 1) then
        some { s with
          waiting := d.join s.waiting element
          pushed := s.pushed ++ [element]
          result := none }
      else none
  | .pop => match s.waiting with
    | [] => some { s with result := none }
    | element :: rest =>
        some { s with
          waiting := rest
          popped := s.popped ++ [element]
          result := some element }

/-- What has come is what has gone and what waits, in the order of the discipline. -/
structure Law (d : Discipline) (s : Line β) : Prop where
  conserved : s.pushed.Perm (s.popped ++ s.waiting)
  fifo : d = .fifo → s.pushed = s.popped ++ s.waiting
  lifo : d = .lifo → s.waiting.reverse.Sublist s.pushed

theorem law_init (d : Discipline) : Law d (Line.init : Line β) :=
  ⟨List.Perm.refl [], fun _ => rfl, fun _ => List.Sublist.refl []⟩

theorem join_perm (d : Discipline) (waiting : List β) (element : β) :
    (d.join waiting element).Perm (waiting ++ [element]) := by
  cases d with
  | fifo => exact List.Perm.refl _
  | lifo => exact (List.perm_append_singleton element waiting).symm

theorem law_step (fits : Nat → Bool) (d : Discipline) (s t : Line β) (move : Move β)
    (h : Law d s) (ht : s.step fits d move = some t) : Law d t := by
  cases move with
  | push element =>
      simp only [Line.step] at ht
      split at ht
      next =>
        obtain rfl := Option.some.inj ht
        refine ⟨?_, ?_, ?_⟩
        · have hcome : (s.pushed ++ [element]).Perm (s.popped ++ (s.waiting ++ [element])) := by
            rw [← List.append_assoc]
            exact h.conserved.append_right [element]
          exact hcome.trans ((join_perm d s.waiting element).symm.append_left s.popped)
        · rintro rfl
          show s.pushed ++ [element] = s.popped ++ (s.waiting ++ [element])
          rw [h.fifo rfl, List.append_assoc]
        · rintro rfl
          show (element :: s.waiting).reverse.Sublist (s.pushed ++ [element])
          rw [List.reverse_cons]
          exact (h.lifo rfl).append (List.Sublist.refl [element])
      next => exact nomatch ht
  | pop =>
      simp only [Line.step] at ht
      split at ht
      next =>
        obtain rfl := Option.some.inj ht
        exact ⟨h.conserved, h.fifo, h.lifo⟩
      next element rest hwaiting =>
        obtain rfl := Option.some.inj ht
        have hjoin : s.popped ++ s.waiting = s.popped ++ [element] ++ rest := by
          rw [hwaiting, List.append_assoc, List.singleton_append]
        refine ⟨hjoin ▸ h.conserved, fun hd => (h.fifo hd).trans hjoin, fun hd => ?_⟩
        -- Those that still wait waited before.
        have hbefore := h.lifo hd
        rw [hwaiting, List.reverse_cons] at hbefore
        exact (List.sublist_append_left rest.reverse [element]).trans hbefore

/-- After any moves. -/
theorem law_run (fits : Nat → Bool) (d : Discipline) (t : Line β) (moves : List (Move β))
    (hrun : run (Line.step fits d) Line.init moves = some t) : Law d t :=
  run_invariant (Line.step fits d) (Law d) (fun s e u h hu => law_step fits d s u e h hu) _ t moves
    (law_init d) hrun

end Turns
