import Esther.Lib.Transition
import Mathlib.Data.List.Nodup

/-!
# Lines that Some Leave Early

Elements that wait in a line, of a system that does other things as well.

Those that come stand behind the others and those that are served go from the front. Any of
them may also leave unserved, from wherever they stand. Then those that have been served and
those that still wait do not make up all that have come, but they stand in the order of their
coming, and this is all there is to overtaking: an element that stays in the line sees at
most those pass that stood before it.

What comes and what is served is found along the run (`record`), and the line in its states.

## Main definitions

* `record`: What the steps of a run give, one after another.
* `Orderly`: Steps that serve from the front.

## Theorems

* `orderly_run`: A run of orderly steps.
* `faithful_run`: A run of steps from which nobody leaves early.
* `record_run`: What a run records is a run of another system.
* `sublist_before`: What passes an element that stays.
-/

namespace Lines

open Transition

variable {σ ε β : Type*}

/-- What the steps of a run give, in their order, up to the first that is not taken. -/
def record (step : σ → ε → Option σ) (f : σ → ε → List β) : σ → List ε → List β
  | _, [] => []
  | s, e :: es => match step s e with
    | none => []
    | some u => f s e ++ record step f u es

/-- A step that serves some of the line from its front, and puts those that come behind. -/
def Orderly (waiting : σ → List β) (comes serves : σ → ε → List β) (s : σ) (e : ε) (u : σ) :
    Prop :=
  (serves s e ++ waiting u).Sublist (waiting s ++ comes s e)

theorem record_cons (step : σ → ε → Option σ) (f : σ → ε → List β) (s u : σ) (e : ε)
    (es : List ε) (h : step s e = some u) :
    record step f s (e :: es) = f s e ++ record step f u es := by
  rw [record, h]

/-- What is kept of what the steps give is what is given by keeping it at once. -/
theorem record_filterMap {γ : Type*} (step : σ → ε → Option σ) (f : σ → ε → List β)
    (g : β → Option γ) (s : σ) (es : List ε) :
    (record step f s es).filterMap g = record step (fun s e => (f s e).filterMap g) s es := by
  induction es generalizing s with
  | nil => rfl
  | cons e es ih =>
      simp only [record]
      cases step s e with
      | none => rfl
      | some u => rw [List.filterMap_append, ih]

/-- Those that have been served and those that wait stand in the order of those that waited at
    first and have come since. -/
theorem orderly_run (step : σ → ε → Option σ) (waiting : σ → List β)
    (comes serves : σ → ε → List β)
    (hstep : ∀ s e u, step s e = some u → Orderly waiting comes serves s e u) (s t : σ)
    (es : List ε) (hrun : run step s es = some t) :
    (record step serves s es ++ waiting t).Sublist (waiting s ++ record step comes s es) := by
  induction es generalizing s with
  | nil =>
      rw [run_nil, Option.some.injEq] at hrun
      rw [hrun]
      exact (List.append_nil _).symm ▸ List.Sublist.refl (waiting t)
  | cons e es ih =>
      rcases (run_cons step s t e es).mp hrun with ⟨u, hu, hrest⟩
      rw [record_cons step serves s u e es hu, record_cons step comes s u e es hu,
        List.append_assoc]
      have hfirst := (hstep s e u hu).append_right (record step comes u es)
      rw [List.append_assoc, List.append_assoc] at hfirst
      exact ((ih u hrest).append_left (serves s e)).trans hfirst

/-- Where nobody leaves unserved, those that have been served and those that wait are all that
    have come, in that order. -/
theorem faithful_run (step : σ → ε → Option σ) (waiting : σ → List β)
    (comes serves : σ → ε → List β)
    (hstep : ∀ s e u, step s e = some u → serves s e ++ waiting u = waiting s ++ comes s e)
    (s t : σ) (es : List ε) (hrun : run step s es = some t) :
    record step serves s es ++ waiting t = waiting s ++ record step comes s es := by
  induction es generalizing s with
  | nil =>
      rw [run_nil, Option.some.injEq] at hrun
      rw [hrun]
      exact (List.append_nil _).symm
  | cons e es ih =>
      rcases (run_cons step s t e es).mp hrun with ⟨u, hu, hrest⟩
      rw [record_cons step serves s u e es hu, record_cons step comes s u e es hu,
        List.append_assoc, ih u hrest, ← List.append_assoc, hstep s e u hu, List.append_assoc]

/-- Where what each step records brings another system from what the state shows of it to what
    the next one shows, so does what a run records. -/
theorem record_run {τ : Type*} (step : σ → ε → Option σ) (act : τ → β → Option τ)
    (f : σ → ε → List β) (shows : σ → τ) (Inv : σ → Prop)
    (hinv : ∀ s e u, Inv s → step s e = some u → Inv u)
    (hstep : ∀ s e u, Inv s → step s e = some u → run act (shows s) (f s e) = some (shows u))
    (s t : σ) (es : List ε) (hs : Inv s) (hrun : run step s es = some t) :
    run act (shows s) (record step f s es) = some (shows t) := by
  induction es generalizing s with
  | nil =>
      rw [run_nil, Option.some.injEq] at hrun
      rw [hrun]
      rfl
  | cons e es ih =>
      rcases (run_cons step s t e es).mp hrun with ⟨u, hu, hrest⟩
      rw [record_cons step f s u e es hu, run_append]
      exact ⟨shows u, hstep s e u hs hu, ih u (hinv s e u hs hu) hrest⟩

/-- Whoever is served while an element stays in the line stood before it, if the element has
    not come again. -/
theorem sublist_before (served waiting before after : List β) (a : β) (hafter : a ∉ after)
    (hstays : a ∈ waiting) (h : (served ++ waiting).Sublist (before ++ a :: after)) :
    served.Sublist before := by
  rcases List.append_sublist_iff.mp h with ⟨front, back, hsplit, hserved, hwaiting⟩
  have hback : a ∈ back := hwaiting.subset hstays
  rcases List.append_eq_append_iff.mp hsplit with ⟨rest, hfront, hrest⟩ | ⟨rest, hbefore, _⟩
  · -- The element itself cannot be in front of the cut, because it is behind it.
    cases rest with
    | nil =>
        rw [List.append_nil] at hfront
        exact hfront ▸ hserved
    | cons b rest =>
        rw [List.cons_append, List.cons.injEq] at hrest
        refine absurd ?_ hafter
        rw [hrest.2]
        exact List.mem_append_right rest hback
  · rw [hbefore]
    exact hserved.trans (List.sublist_append_left front rest)

end Lines
