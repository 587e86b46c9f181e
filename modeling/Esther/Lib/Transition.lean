import Mathlib.Logic.Basic

/-!
# Partial Step Functions

Runs of a system whose step is a partial function of the state and an event.

A step that returns nothing is a step the system does not take: the event is
not enabled there, or the program behind it has no defined behaviour. A run is
a list of events every one of which is taken, and everything proved about a
run is an induction on that list. The inductions are done once, here; a client
supplies what one step does.

`Along` and `Throughout` are the two ways of speaking about the middle of a
run. `Along` constrains the steps, each in the state it is taken from, and
`Throughout` constrains the states. `throughout_iff_along` relates them
exactly: when one step from a good state is good precisely if it meets a
condition, a run stays good precisely if all of its steps meet it.

## Main definitions

* `run`: The state a list of events leads to.
* `Along`: Every step of a run meets a condition.
* `Throughout`: Every state of a run meets a condition.
* `Onward`: Every state of a run is related to every later one.
* `tally`: How many steps of a run are taken from states that pass a test.

## Theorems

* `run_append`: A run splits at any point.
* `run_map`: Runs of a system inside another one.
* `throughout_last`: What holds throughout a run holds at its end.
* `run_total`: Runs of which no step can fail.
* `run_rel`: Runs of one system that are runs of another.
* `run_invariant`: What every step preserves holds at the end of a run.
* `run_invariant_along`: The same, for steps that meet a condition.
* `throughout_invariant_along`: And at every other point of it.
* `along_append`: The steps of a run from any point on.
* `along_of_invariant`: What an invariant says about a step holds of all steps.
* `along_iff`, `along_congr_along`, `along_congr`: Conditions that agree where an invariant holds.
* `along_iff_kept`: Conditions one of which keeps the invariant.
* `along_iff_pairwise`: A condition on what has happened so far, as one on the list of events.
* `onward_iff_along`: A preorder holds onward when every step is in it.
* `along_of_throughout`: What the states of a run say about its steps.
* `throughout_iff_along`: A run stays good exactly when its steps are.
* `throughout_along_iff`: The same, for a property of states and one of steps.
* `run_measure`: What grows at certain steps grows by their number.
-/

namespace Transition

variable {σ ε : Type*}

/-- The state a list of events leads to, or `none` once one is not taken. -/
def run (step : σ → ε → Option σ) : σ → List ε → Option σ
  | s, [] => some s
  | s, e :: es => match step s e with
    | none => none
    | some s' => run step s' es

@[simp] theorem run_nil (step : σ → ε → Option σ) (s : σ) : run step s [] = some s := rfl

theorem run_cons (step : σ → ε → Option σ) (s t : σ) (e : ε) (es : List ε) :
    run step s (e :: es) = some t ↔ ∃ u, step s e = some u ∧ run step u es = some t := by
  simp only [run]
  cases step s e with
  | none => simp only [reduceCtorEq, false_and, exists_false]
  | some u => simp only [Option.some.injEq, exists_eq_left']

theorem run_append (step : σ → ε → Option σ) (s t : σ) (es fs : List ε) :
    run step s (es ++ fs) = some t ↔ ∃ u, run step s es = some u ∧ run step u fs = some t := by
  induction es generalizing s with
  | nil => simp only [List.nil_append, run_nil, Option.some.injEq, exists_eq_left']
  | cons e es ih =>
      rw [List.cons_append, run_cons]
      constructor
      · rintro ⟨u, hu, hrest⟩
        rcases (ih u).mp hrest with ⟨v, hv, ht⟩
        exact ⟨v, (run_cons step s v e es).mpr ⟨u, hu, hv⟩, ht⟩
      · rintro ⟨v, hv, ht⟩
        rcases (run_cons step s v e es).mp hv with ⟨u, hu, hrest⟩
        exact ⟨u, hu, (ih u).mpr ⟨v, hrest, ht⟩⟩

/-- A system some of whose events are those of another takes them as the other does. -/
theorem run_map {ε' : Type*} (step : σ → ε → Option σ) (step' : σ → ε' → Option σ) (f : ε → ε')
    (hstep : ∀ s e, step' s (f e) = step s e) (s : σ) (es : List ε) :
    run step' s (es.map f) = run step s es := by
  induction es generalizing s with
  | nil => rfl
  | cons e es ih =>
      simp only [List.map_cons, run, hstep]
      cases step s e with
      | none => rfl
      | some u => exact ih u

/-- Every step of the run meets `Ok` in the state it is taken from. -/
def Along (step : σ → ε → Option σ) (Ok : σ → ε → Prop) : σ → List ε → Prop
  | _, [] => True
  | s, e :: es => Ok s e ∧ ∀ u, step s e = some u → Along step Ok u es

/-- Every state the run passes through, first and last included, meets `P`. -/
def Throughout (step : σ → ε → Option σ) (P : σ → Prop) : σ → List ε → Prop
  | s, [] => P s
  | s, e :: es => P s ∧ ∀ u, step s e = some u → Throughout step P u es

/-- Any two states of the run are related, the earlier one to the later one. -/
def Onward (step : σ → ε → Option σ) (R : σ → σ → Prop) : σ → List ε → Prop
  | s, [] => R s s
  | s, e :: es => Throughout step (R s) s (e :: es) ∧
      ∀ u, step s e = some u → Onward step R u es

instance decidableAlong (step : σ → ε → Option σ) (Ok : σ → ε → Prop)
    [∀ s e, Decidable (Ok s e)] (s : σ) : (es : List ε) → Decidable (Along step Ok s es)
  | [] => .isTrue trivial
  | e :: es => match h : step s e with
    | none => decidable_of_iff (Ok s e) <| by
        simp only [Along, h, reduceCtorEq, false_implies, implies_true, and_true]
    | some u =>
        have := decidableAlong step Ok u es
        decidable_of_iff (Ok s e ∧ Along step Ok u es) <| by
          simp only [Along, h, Option.some.injEq, forall_eq']

instance decidableThroughout (step : σ → ε → Option σ) (P : σ → Prop) [∀ s, Decidable (P s)]
    (s : σ) : (es : List ε) → Decidable (Throughout step P s es)
  | [] => inferInstanceAs (Decidable (P s))
  | e :: es => match h : step s e with
    | none => decidable_of_iff (P s) <| by
        simp only [Throughout, h, reduceCtorEq, false_implies, implies_true, and_true]
    | some u =>
        have := decidableThroughout step P u es
        decidable_of_iff (P s ∧ Throughout step P u es) <| by
          simp only [Throughout, h, Option.some.injEq, forall_eq']

theorem along_true (step : σ → ε → Option σ) (s : σ) (es : List ε) :
    Along step (fun _ _ => True) s es := by
  induction es generalizing s with
  | nil => trivial
  | cons e es ih => exact ⟨trivial, fun u _ => ih u⟩

theorem along_and (step : σ → ε → Option σ) (Ok Ok' : σ → ε → Prop) (s : σ) (es : List ε)
    (h : Along step Ok s es) (h' : Along step Ok' s es) :
    Along step (fun s e => Ok s e ∧ Ok' s e) s es := by
  induction es generalizing s with
  | nil => trivial
  | cons e es ih => exact ⟨⟨h.1, h'.1⟩, fun u hu => ih u (h.2 u hu) (h'.2 u hu)⟩

/-- The steps of a run from any point on meet what all of them meet. -/
theorem along_append (step : σ → ε → Option σ) (Ok : σ → ε → Prop) (s u : σ) (es fs : List ε)
    (h : Along step Ok s (es ++ fs)) (hrun : run step s es = some u) : Along step Ok u fs := by
  induction es generalizing s with
  | nil =>
      rw [run_nil, Option.some.injEq] at hrun
      exact hrun ▸ h
  | cons e es ih =>
      rcases (run_cons step s u e es).mp hrun with ⟨v, hv, hrest⟩
      exact ih v (h.2 v hv) hrest

/-- The steps up to a point and those from it on. -/
theorem along_append_iff (step : σ → ε → Option σ) (Ok : σ → ε → Prop) (s : σ) (es fs : List ε) :
    Along step Ok s (es ++ fs) ↔
      Along step Ok s es ∧ ∀ u, run step s es = some u → Along step Ok u fs := by
  constructor
  · intro h
    refine ⟨?_, fun u hu => along_append step Ok s u es fs h hu⟩
    induction es generalizing s with
    | nil => trivial
    | cons e es ih => exact ⟨h.1, fun u hu => ih u (h.2 u hu)⟩
  · rintro ⟨h, hrest⟩
    induction es generalizing s with
    | nil => exact hrest s rfl
    | cons e es ih =>
        refine ⟨h.1, fun u hu => ih u (h.2 u hu) fun v hv => ?_⟩
        exact hrest v ((run_cons step s v e es).mpr ⟨u, hu, hv⟩)

/-- What holds throughout a run holds at its end. -/
theorem throughout_last (step : σ → ε → Option σ) (P : σ → Prop) (s t : σ) (es : List ε)
    (hall : Throughout step P s es) (hrun : run step s es = some t) : P t := by
  induction es generalizing s with
  | nil =>
      rw [run_nil, Option.some.injEq] at hrun
      exact hrun ▸ hall
  | cons e es ih =>
      rcases (run_cons step s t e es).mp hrun with ⟨u, hu, hrest⟩
      exact ih u (hall.2 u hu) hrest

/-- Where every step can be taken and keeps an invariant, every run can. -/
theorem run_total (step : σ → ε → Option σ) (Inv : σ → Prop)
    (hstep : ∀ s e, Inv s → ∃ u, step s e = some u ∧ Inv u) (s : σ) (es : List ε) (hs : Inv s) :
    ∃ t, run step s es = some t ∧ Inv t := by
  induction es generalizing s with
  | nil => exact ⟨s, rfl, hs⟩
  | cons e es ih =>
      rcases hstep s e hs with ⟨u, hu, hinv⟩
      rcases ih u hinv with ⟨t, hrun, ht⟩
      exact ⟨t, (run_cons step s t e es).mpr ⟨u, hu, hrun⟩, ht⟩

/-- Where every step of one system is a step of another, every run is a run of the other. -/
theorem run_rel {τ : Type*} (step : σ → ε → Option σ) (step' : τ → ε → Option τ)
    (R : σ → τ → Prop) (hstep : ∀ s t e, R s t → Option.Rel R (step s e) (step' t e)) (s : σ)
    (t : τ) (es : List ε) (hst : R s t) : Option.Rel R (run step s es) (run step' t es) := by
  induction es generalizing s t with
  | nil => exact Option.Rel.some hst
  | cons e es ih =>
      have hnext := hstep s t e hst
      simp only [run]
      revert hnext
      cases step s e with
      | none => cases step' t e with
        | none => exact fun _ => Option.Rel.none
        | some v => exact fun hnext => nomatch hnext
      | some u => cases step' t e with
        | none => exact fun hnext => nomatch hnext
        | some v => exact fun hnext => ih u v (match hnext with | .some huv => huv)

/-- What every step preserves holds at the end of a run. -/
theorem run_invariant (step : σ → ε → Option σ) (Inv : σ → Prop)
    (hstep : ∀ s e u, Inv s → step s e = some u → Inv u) (s t : σ) (es : List ε)
    (hs : Inv s) (hrun : run step s es = some t) : Inv t := by
  induction es generalizing s with
  | nil =>
      rw [run_nil, Option.some.injEq] at hrun
      exact hrun ▸ hs
  | cons e es ih =>
      rcases (run_cons step s t e es).mp hrun with ⟨u, hu, hrest⟩
      exact ih u (hstep s e u hs hu) hrest

/-- What every step that meets `Ok` preserves holds at the end of a run all of
    whose steps meet it. -/
theorem run_invariant_along (step : σ → ε → Option σ) (Ok : σ → ε → Prop) (Inv : σ → Prop)
    (hstep : ∀ s e u, Inv s → Ok s e → step s e = some u → Inv u) (s t : σ) (es : List ε)
    (hs : Inv s) (hok : Along step Ok s es) (hrun : run step s es = some t) : Inv t := by
  induction es generalizing s with
  | nil =>
      rw [run_nil, Option.some.injEq] at hrun
      exact hrun ▸ hs
  | cons e es ih =>
      rcases (run_cons step s t e es).mp hrun with ⟨u, hu, hrest⟩
      exact ih u (hstep s e u hs hok.1 hu) (hok.2 u hu) hrest

/-- The same, for all the states the run goes through. -/
theorem throughout_invariant_along (step : σ → ε → Option σ) (Ok : σ → ε → Prop) (Inv : σ → Prop)
    (hstep : ∀ s e u, Inv s → Ok s e → step s e = some u → Inv u) (s : σ) (es : List ε)
    (hs : Inv s) (hok : Along step Ok s es) : Throughout step Inv s es := by
  induction es generalizing s with
  | nil => exact hs
  | cons e es ih =>
      refine ⟨hs, fun u hu => ?_⟩
      exact ih u (hstep s e u hs hok.1 hu) (hok.2 u hu)

/-- What an invariant says about a step holds of all the steps of a run, `Ok` being what
    the invariant needs of a step. -/
theorem along_of_invariant (step : σ → ε → Option σ) (Ok Good : σ → ε → Prop) (Inv : σ → Prop)
    (hstep : ∀ s e u, Inv s → Ok s e → step s e = some u → Inv u)
    (hgood : ∀ s e, Inv s → Ok s e → Good s e) (s : σ) (es : List ε) (hs : Inv s)
    (hok : Along step Ok s es) : Along step Good s es := by
  induction es generalizing s with
  | nil => trivial
  | cons e es ih =>
      refine ⟨hgood s e hs hok.1, fun u hu => ?_⟩
      exact ih u (hstep s e u hs hok.1 hu) (hok.2 u hu)

/-- Two conditions on a step that agree where an invariant holds agree on all lists of events,
    also on those that come to a step that is not taken. -/
theorem along_iff (step : σ → ε → Option σ) (Ok Good : σ → ε → Prop) (Inv : σ → Prop)
    (hstep : ∀ s e u, Inv s → step s e = some u → Inv u)
    (hiff : ∀ s e, Inv s → (Good s e ↔ Ok s e)) (s : σ) (es : List ε) (hs : Inv s) :
    Along step Good s es ↔ Along step Ok s es := by
  induction es generalizing s with
  | nil => exact Iff.rfl
  | cons e es ih =>
      exact and_congr (hiff s e hs) (forall_congr' fun u => forall_congr' fun hu =>
        ih u (hstep s e u hs hu))

/-- Two conditions on a step agree on all lists of events when one of them keeps an invariant
    under which they agree. Once a step fails both, nothing is said about the rest. -/
theorem along_iff_kept (step : σ → ε → Option σ) (Also Ok Good : σ → ε → Prop) (Inv : σ → Prop)
    (hstep : ∀ s e u, Inv s → Also s e → Ok s e → step s e = some u → Inv u)
    (hiff : ∀ s e, Inv s → Also s e → (Good s e ↔ Ok s e)) (s : σ) (es : List ε) (hs : Inv s)
    (halso : Along step Also s es) : Along step Good s es ↔ Along step Ok s es := by
  induction es generalizing s with
  | nil => exact Iff.rfl
  | cons e es ih =>
      have hhead := hiff s e hs halso.1
      constructor
      · rintro ⟨hgood, hrest⟩
        have hok := hhead.mp hgood
        refine ⟨hok, fun u hu => ?_⟩
        exact (ih u (hstep s e u hs halso.1 hok hu) (halso.2 u hu)).mp (hrest u hu)
      · rintro ⟨hok, hrest⟩
        refine ⟨hhead.mpr hok, fun u hu => ?_⟩
        exact (ih u (hstep s e u hs halso.1 hok hu) (halso.2 u hu)).mpr (hrest u hu)

/-- Two conditions on a step that agree where an invariant holds agree on runs, `Also` being
    what the invariant needs of a step. -/
theorem along_congr_along (step : σ → ε → Option σ) (Also Ok Good : σ → ε → Prop) (Inv : σ → Prop)
    (hstep : ∀ s e u, Inv s → Also s e → step s e = some u → Inv u)
    (hiff : ∀ s e u, Inv s → Also s e → step s e = some u → (Good s e ↔ Ok s e)) (s t : σ)
    (es : List ε) (hs : Inv s) (halso : Along step Also s es) (hrun : run step s es = some t) :
    Along step Good s es ↔ Along step Ok s es := by
  induction es generalizing s with
  | nil => exact Iff.rfl
  | cons e es ih =>
      rcases (run_cons step s t e es).mp hrun with ⟨u, hu, hrest⟩
      have htail := ih u (hstep s e u hs halso.1 hu) (halso.2 u hu) hrest
      refine and_congr (hiff s e u hs halso.1 hu) ⟨fun h v hv => ?_, fun h v hv => ?_⟩
      · obtain rfl : u = v := Option.some.inj (hu.symm.trans hv)
        exact htail.mp (h u hu)
      · obtain rfl : u = v := Option.some.inj (hu.symm.trans hv)
        exact htail.mpr (h u hu)

/-- The same, for an invariant that needs nothing. -/
theorem along_congr (step : σ → ε → Option σ) (Ok Good : σ → ε → Prop) (Inv : σ → Prop)
    (hstep : ∀ s e u, Inv s → step s e = some u → Inv u)
    (hiff : ∀ s e u, Inv s → step s e = some u → (Good s e ↔ Ok s e)) (s t : σ) (es : List ε)
    (hs : Inv s) (hrun : run step s es = some t) : Along step Good s es ↔ Along step Ok s es := by
  refine along_congr_along step (fun _ _ => True) Ok Good Inv
    (fun s e u hs _ hu => hstep s e u hs hu) (fun s e u hs _ hu => hiff s e u hs hu) s t es hs ?_
    hrun
  exact along_true step s es

/-- Where a step adds to the condition on the later events that they go with it, every step
    meets the condition when the events go with each other, in their order, and all of them
    meet it in the first state. `Also` is what this needs of a step besides. -/
theorem along_iff_pairwise (step : σ → ε → Option σ) (Also Ok : σ → ε → Prop) (R : ε → ε → Prop)
    (Inv : σ → Prop)
    (hstep : ∀ s e u, Inv s → Also s e → Ok s e → step s e = some u →
      Inv u ∧ ∀ e', Ok u e' ↔ Ok s e' ∧ R e e')
    (s t : σ) (es : List ε) (hs : Inv s) (hrun : run step s es = some t) :
    Along step (fun s e => Also s e ∧ Ok s e) s es
      ↔ Along step Also s es ∧ es.Pairwise R ∧ ∀ e ∈ es, Ok s e := by
  induction es generalizing s with
  | nil =>
      refine iff_of_true trivial ⟨trivial, List.Pairwise.nil, fun e he => ?_⟩
      exact absurd he List.not_mem_nil
  | cons e es ih =>
      rcases (run_cons step s t e es).mp hrun with ⟨u, hu, hrest⟩
      rw [List.pairwise_cons, List.forall_mem_cons]
      constructor
      · rintro ⟨⟨halso, hok⟩, hlater⟩
        rcases hstep s e u hs halso hok hu with ⟨hinv, hadds⟩
        rcases (ih u hinv hrest).mp (hlater u hu) with ⟨halong, hpair, hall⟩
        refine ⟨⟨halso, fun v hv => ?_⟩, ⟨fun e' he' => ?_, hpair⟩, hok, fun e' he' => ?_⟩
        · exact Option.some.inj (hu.symm.trans hv) ▸ halong
        -- What the condition has become for the later events is taken apart again.
        · exact ((hadds e').mp (hall e' he')).2
        · exact ((hadds e').mp (hall e' he')).1
      · rintro ⟨⟨halso, halong⟩, ⟨hwith, hpair⟩, hok, hall⟩
        rcases hstep s e u hs halso hok hu with ⟨hinv, hadds⟩
        refine ⟨⟨halso, hok⟩, fun v hv => ?_⟩
        obtain rfl : u = v := Option.some.inj (hu.symm.trans hv)
        refine (ih u hinv hrest).mpr ⟨halong u hu, hpair, fun e' he' => ?_⟩
        exact (hadds e').mpr ⟨hall e' he', hwith e' he'⟩

theorem throughout_mono (step : σ → ε → Option σ) (P Q : σ → Prop) (hPQ : ∀ s, P s → Q s) (s : σ)
    (es : List ε) (hall : Throughout step P s es) : Throughout step Q s es := by
  induction es generalizing s with
  | nil => exact hPQ s hall
  | cons e es ih => exact ⟨hPQ s hall.1, fun u hu => ih u (hall.2 u hu)⟩

theorem throughout_head (step : σ → ε → Option σ) (P : σ → Prop) (s : σ) (es : List ε)
    (hall : Throughout step P s es) : P s := by
  cases es with
  | nil => exact hall
  | cons e es => exact hall.1

/-- States are related to all later ones when every step relates its state to the next. -/
theorem onward_iff_along (step : σ → ε → Option σ) (R : σ → σ → Prop) (hrefl : ∀ s, R s s)
    (htrans : ∀ s u v, R s u → R u v → R s v) (s : σ) (es : List ε) :
    Onward step R s es ↔ Along step (fun s e => ∀ u, step s e = some u → R s u) s es := by
  induction es generalizing s with
  | nil => exact iff_of_true (hrefl s) trivial
  | cons e es ih =>
      constructor
      · rintro ⟨⟨_, hall⟩, hnext⟩
        refine ⟨fun u hu => throughout_head step (R s) u es (hall u hu), fun u hu => ?_⟩
        exact (ih u).mp (hnext u hu)
      · rintro ⟨hfirst, hrest⟩
        refine ⟨⟨hrefl s, fun u hu => ?_⟩, fun u hu => (ih u).mpr (hrest u hu)⟩
        -- What is related to the next state is related to this one.
        have hlater := (ih u).mpr (hrest u hu)
        have hu' : Throughout step (R u) u es := by
          cases es with
          | nil => exact hlater
          | cons e' es' => exact hlater.1
        exact throughout_mono step (R u) (R s) (fun v hv => htrans s u v (hfirst u hu) hv) u es hu'

/-- What holds throughout a run says something about each of its steps. -/
theorem along_of_throughout (step : σ → ε → Option σ) (P : σ → Prop) (Good : σ → ε → Prop)
    (hgood : ∀ s e, P s → Good s e) (s : σ) (es : List ε) (hall : Throughout step P s es) :
    Along step Good s es := by
  induction es generalizing s with
  | nil => trivial
  | cons e es ih => exact ⟨hgood s e hall.1, fun u hu => ih u (hall.2 u hu)⟩

/-- A run stays good exactly when its steps are. `J` is what the steps keep as
    long as the states are good; the hypothesis on one step is that, from a good
    state, the next state is good if and only if the step meets `Ok`. -/
theorem throughout_iff_along (step : σ → ε → Option σ) (Ok : σ → ε → Prop) (J P : σ → Prop)
    (hJ : ∀ s e u, J s → P s → P u → step s e = some u → J u)
    (hstep : ∀ s e u, J s → P s → step s e = some u → (P u ↔ Ok s e)) (s t : σ) (es : List ε)
    (hj : J s) (hp : P s) (hrun : run step s es = some t) :
    Throughout step P s es ↔ Along step Ok s es := by
  induction es generalizing s with
  | nil => exact ⟨fun _ => trivial, fun _ => hp⟩
  | cons e es ih =>
      rcases (run_cons step s t e es).mp hrun with ⟨u, hu, hrest⟩
      constructor
      · rintro ⟨_, hall⟩
        have htail := hall u hu
        -- The state after the step is the first of the rest.
        have hpu : P u := by
          cases es with
          | nil => exact htail
          | cons _ _ => exact htail.1
        refine ⟨(hstep s e u hj hp hu).mp hpu, fun v hv => ?_⟩
        obtain rfl : u = v := Option.some.inj (hu.symm.trans hv)
        exact (ih u (hJ s e u hj hp hpu hu) hpu hrest).mp htail
      · rintro ⟨hok, hall⟩
        refine ⟨hp, fun v hv => ?_⟩
        obtain rfl : u = v := Option.some.inj (hu.symm.trans hv)
        have hpu := (hstep s e u hj hp hu).mpr hok
        exact (ih u (hJ s e u hj hp hpu hu) hpu hrest).mpr (hall u hu)

/-- The same for a property of the states together with one of the steps. The invariant
    `J` may be stronger than the property, since the steps that meet `Ok` keep it. -/
theorem throughout_along_iff (step : σ → ε → Option σ) (Ok Good : σ → ε → Prop) (J P : σ → Prop)
    (hP : ∀ s, J s → P s) (hJ : ∀ s e u, J s → Ok s e → step s e = some u → J u)
    (hstep : ∀ s e u, J s → step s e = some u → (P u ∧ Good s e ↔ Ok s e)) (s t : σ) (es : List ε)
    (hs : J s) (hrun : run step s es = some t) :
    Throughout step P s es ∧ Along step Good s es ↔ Along step Ok s es := by
  induction es generalizing s with
  | nil => exact ⟨fun _ => trivial, fun _ => ⟨hP s hs, trivial⟩⟩
  | cons e es ih =>
      rcases (run_cons step s t e es).mp hrun with ⟨u, hu, hrest⟩
      constructor
      · rintro ⟨⟨_, hall⟩, hgood, halong⟩
        have htail := hall u hu
        -- The state after the step is the first of the rest.
        have hpu : P u := by
          cases es with
          | nil => exact htail
          | cons _ _ => exact htail.1
        have hok := (hstep s e u hs hu).mp ⟨hpu, hgood⟩
        refine ⟨hok, fun v hv => ?_⟩
        obtain rfl : u = v := Option.some.inj (hu.symm.trans hv)
        exact (ih u (hJ s e u hs hok hu) hrest).mp ⟨htail, halong u hu⟩
      · rintro ⟨hok, hall⟩
        have hboth := (hstep s e u hs hu).mpr hok
        have htail := (ih u (hJ s e u hs hok hu) hrest).mpr (hall u hu)
        refine ⟨⟨hP s hs, fun v hv => ?_⟩, hboth.2, fun v hv => ?_⟩
        · obtain rfl : u = v := Option.some.inj (hu.symm.trans hv)
          exact htail.1
        · obtain rfl : u = v := Option.some.inj (hu.symm.trans hv)
          exact htail.2

section Tally

/-- How many steps of the run are taken from a state that passes the test. -/
def tally (step : σ → ε → Option σ) (test : σ → Bool) : σ → List ε → Nat
  | _, [] => 0
  | s, e :: es => (test s).toNat + match step s e with
    | none => 0
    | some u => tally step test u es

theorem tally_cons (step : σ → ε → Option σ) (test : σ → Bool) (s u : σ) (e : ε) (es : List ε)
    (hu : step s e = some u) :
    tally step test s (e :: es) = (test s).toNat + tally step test u es := by
  simp only [tally, hu]

/-- Two tests that no state passes both of, counted together. -/
theorem tally_or (step : σ → ε → Option σ) (test test' : σ → Bool)
    (hdisjoint : ∀ s, test s = true → test' s = false) (s : σ) (es : List ε) :
    tally step (fun s => test s || test' s) s es = tally step test s es + tally step test' s es := by
  induction es generalizing s with
  | nil => rfl
  | cons e es ih =>
      have hhead : (test s || test' s).toNat = (test s).toNat + (test' s).toNat := by
        cases htest : test s with
        | false => rw [Bool.false_or, Bool.toNat_false, Nat.zero_add]
        | true => rw [hdisjoint s htest, Bool.or_false, Bool.toNat_false, Nat.add_zero]
      simp only [tally, hhead]
      cases step s e with
      | none => rfl
      | some u =>
          simp only [ih u]
          omega

/-- Where an invariant excludes the test, no step passes it. -/
theorem tally_eq_zero (step : σ → ε → Option σ) (test : σ → Bool) (Inv : σ → Prop)
    (hstep : ∀ s e u, Inv s → step s e = some u → Inv u) (htest : ∀ s, Inv s → test s = false)
    (s : σ) (es : List ε) (hs : Inv s) : tally step test s es = 0 := by
  induction es generalizing s with
  | nil => rfl
  | cons e es ih =>
      simp only [tally, htest s hs, Bool.toNat_false, Nat.zero_add]
      cases hu : step s e with
      | none => rfl
      | some u => exact ih u (hstep s e u hs hu)

/-- What grows by one at the steps that pass the test, and at no other, has grown by their
    number at the end of a run. -/
theorem run_measure (step : σ → ε → Option σ) (test : σ → Bool) (Inv : σ → Prop) (f : σ → Nat)
    (hstep : ∀ s e u, Inv s → step s e = some u → Inv u ∧ f u = f s + (test s).toNat)
    (s t : σ) (es : List ε) (hs : Inv s) (hrun : run step s es = some t) :
    f t = f s + tally step test s es := by
  induction es generalizing s with
  | nil =>
      rw [run_nil, Option.some.injEq] at hrun
      rw [hrun]
      rfl
  | cons e es ih =>
      rcases (run_cons step s t e es).mp hrun with ⟨u, hu, hrest⟩
      rcases hstep s e u hs hu with ⟨hinv, hgrow⟩
      rw [ih u hinv hrest, tally_cons step test s u e es hu, hgrow, Nat.add_assoc]

end Tally

end Transition
