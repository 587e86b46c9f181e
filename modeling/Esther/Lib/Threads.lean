import Esther.Lib.Lines

/-!
# Operations that Take Effect at Once

Threads whose operations take many steps, on data they share.

A thread is idle between two operations, and in an operation otherwise. What its operation has
to do with that of another thread may be such that their steps can be exchanged: the threads
are apart. If all threads are apart at all times, the steps of an operation can be brought
together at its end, those of the operations still under way standing behind all that have
ended, and each operation that has ended has taken effect at once.

The order in which they have is that of their ends. So an operation that has ended before
another one has begun takes effect before it, and each thread has its own in their order.

Being apart is a matter of what both operations have turned out to touch. It may be lost with
every step, and it is not found again before one of them ends: this is `grows`.

## Main definitions

* `Independent`: What is assumed about the threads.
* `Unended`: Steps that end no operation.
* `ends`: The operation a step ends.

## Theorems

* `swap_step`: Two steps exchanged.
* `to_front`: The steps of one thread brought together.
* `end_to_front`: And the step that ends the operation.
* `linearized`: A run of steps as one of operations.
-/

namespace Threads

open Transition Lines

variable {σ ι : Type*}

/-- The threads do not see when another one is idle; what two operations have turned out to
    touch only gets more; and the steps of two threads that are apart can be exchanged. -/
structure Independent (step : σ → ι → Option σ) (idle : σ → ι → Prop)
    (apart : σ → ι → ι → Prop) : Prop where
  frame : ∀ s s' t u, step s t = some s' → u ≠ t → (idle s' u ↔ idle s u)
  grows : ∀ s s' x t u, step s x = some s' → ¬ idle s' x → t ≠ u → apart s' t u → apart s t u
  comm : ∀ s s₁ s₂ t u, t ≠ u → apart s t u → step s u = some s₁ → step s₁ t = some s₂ →
    ∃ r, step s t = some r ∧ step r u = some s₂

/-- None of the steps ends an operation. -/
def Unended (step : σ → ι → Option σ) (idle : σ → ι → Prop) : σ → List ι → Prop :=
  Along step fun s t => ∀ s', step s t = some s' → ¬ idle s' t

/-- The thread whose operation the step ends. -/
def ends (step : σ → ι → Option σ) (idle : σ → ι → Prop) [∀ s t, Decidable (idle s t)] (s : σ)
    (t : ι) : List ι :=
  match step s t with
  | none => []
  | some s' => if idle s' t then [t] else []

section Steps

variable (step : σ → ι → Option σ) (idle : σ → ι → Prop) (apart : σ → ι → ι → Prop)

theorem unended_cons (s u : σ) (t : ι) (l : List ι) (hu : step s t = some u) :
    Unended step idle s (t :: l) ↔ ¬ idle u t ∧ Unended step idle u l := by
  constructor
  · rintro ⟨hfirst, hrest⟩
    exact ⟨hfirst u hu, hrest u hu⟩
  · rintro ⟨hfirst, hrest⟩
    refine ⟨fun v hv => ?_, fun v hv => ?_⟩
    · obtain rfl : u = v := Option.some.inj (hu.symm.trans hv)
      exact hfirst
    · obtain rfl : u = v := Option.some.inj (hu.symm.trans hv)
      exact hrest

theorem unended_concat (s u v : σ) (t : ι) (l : List ι) (hl : run step s l = some u)
    (hu : step u t = some v) (h : Unended step idle s l) (hv : ¬ idle v t) :
    Unended step idle s (l ++ [t]) := by
  rw [Unended, along_append_iff]
  refine ⟨h, fun w hw => ?_⟩
  obtain rfl : u = w := Option.some.inj (hl.symm.trans hw)
  exact (unended_cons step idle u v t [] hu).mpr ⟨hv, trivial⟩

variable (h : Independent step idle apart)

include h in
/-- Whether a thread is idle is not changed by the others. -/
theorem idle_run (s c : σ) (t : ι) (l : List ι) (hrun : run step s l = some c) (ht : t ∉ l) :
    idle c t ↔ idle s t := by
  induction l generalizing s with
  | nil =>
      rw [run_nil, Option.some.injEq] at hrun
      rw [hrun]
  | cons x l ih =>
      rcases (run_cons step s c x l).mp hrun with ⟨u, hu, hrest⟩
      rw [List.mem_cons, not_or] at ht
      exact (ih u hrest ht.2).trans (h.frame s u x t hu ht.1)

include h in
/-- Who has made a step that has not ended its operation is in it. -/
theorem busy_of_mem (s c : σ) (t : ι) (l : List ι) (hrun : run step s l = some c)
    (hun : Unended step idle s l) (ht : t ∈ l) : ¬ idle c t := by
  induction l generalizing s with
  | nil => exact absurd ht List.not_mem_nil
  | cons x l ih =>
      rcases (run_cons step s c x l).mp hrun with ⟨u, hu, hrest⟩
      rcases (unended_cons step idle s u x l hu).mp hun with ⟨hbusy, hun'⟩
      -- Its last step is among those that follow, or it is this one.
      by_cases hlater : t ∈ l
      · exact ih u hrest hun' hlater
      · rcases List.mem_cons.mp ht with rfl | hmem
        · rw [idle_run step idle apart h u c t l hrest hlater]
          exact hbusy
        · exact absurd hmem hlater

include h in
/-- Who is apart after steps that end nothing has been so before. -/
theorem apart_before (s c : σ) (t u : ι) (l : List ι) (hrun : run step s l = some c)
    (hun : Unended step idle s l) (htu : t ≠ u) (hap : apart c t u) : apart s t u := by
  induction l generalizing s with
  | nil =>
      rw [run_nil, Option.some.injEq] at hrun
      rw [hrun]
      exact hap
  | cons x l ih =>
      rcases (run_cons step s c x l).mp hrun with ⟨v, hv, hrest⟩
      rcases (unended_cons step idle s v x l hv).mp hun with ⟨hbusy, hun'⟩
      exact h.grows s v x t u hv hbusy htu (ih v hrest hun')

include h in
/-- Two steps of threads that are apart, in the other order. Neither thread sees the other. -/
theorem swap_step (s s₁ s₂ : σ) (t u : ι) (htu : t ≠ u) (hap : apart s t u)
    (hu : step s u = some s₁) (ht : step s₁ t = some s₂) :
    ∃ r, step s t = some r ∧ step r u = some s₂ ∧ (idle r t ↔ idle s₂ t)
      ∧ (idle s₂ u ↔ idle s₁ u) := by
  rcases h.comm s s₁ s₂ t u htu hap hu ht with ⟨r, hr, hs₂⟩
  refine ⟨r, hr, hs₂, (h.frame r s₂ u t hs₂ htu).symm, ?_⟩
  exact h.frame s₁ s₂ t u ht htu.symm

include h in
/-- A step made after those of another thread in place of before. -/
theorem step_behind (s s₁ r₁ c : σ) (t u : ι) (ts l : List ι) (htu : t ≠ u)
    (hts : ∀ x ∈ ts, x = t) (hu : step s u = some s₁) (hbusy : ¬ idle s₁ u)
    (hrun : run step s₁ ts = some r₁) (hun : Unended step idle s₁ ts)
    (hrest : run step r₁ l = some c) (hunrest : Unended step idle r₁ l) (hap : apart c t u) :
    ∃ r, run step s ts = some r ∧ Unended step idle s ts ∧ step r u = some r₁
      ∧ ¬ idle r₁ u := by
  induction ts generalizing s s₁ with
  | nil =>
      rw [run_nil, Option.some.injEq] at hrun
      exact ⟨s, rfl, trivial, hrun ▸ hu, hrun ▸ hbusy⟩
  | cons x ts ih =>
      obtain rfl : x = t := hts x List.mem_cons_self
      rcases (run_cons step s₁ r₁ x ts).mp hrun with ⟨s₂, hs₂, hrun'⟩
      rcases (unended_cons step idle s₁ s₂ x ts hs₂).mp hun with ⟨hx, hun'⟩
      -- The way on from here ends nothing, and at its end the two are apart.
      have hpath : run step s (u :: x :: (ts ++ l)) = some c := by
        refine (run_cons step s c u _).mpr ⟨s₁, hu, ?_⟩
        refine (run_cons step s₁ c x _).mpr ⟨s₂, hs₂, ?_⟩
        exact (run_append step s₂ c ts l).mpr ⟨r₁, hrun', hrest⟩
      have hunpath : Unended step idle s (u :: x :: (ts ++ l)) := by
        refine (unended_cons step idle s s₁ u _ hu).mpr ⟨hbusy, ?_⟩
        refine (unended_cons step idle s₁ s₂ x _ hs₂).mpr ⟨hx, ?_⟩
        refine (along_append_iff step _ s₂ ts l).mpr ⟨hun', fun v hv => ?_⟩
        obtain rfl : r₁ = v := Option.some.inj (hrun'.symm.trans hv)
        exact hunrest
      have hap' := apart_before step idle apart h s c x u _ hpath hunpath htu hap
      rcases swap_step step idle apart h s s₁ s₂ x u htu hap' hu hs₂ with
        ⟨b, hb, hs₂', hidle, hidle'⟩
      rcases ih b s₂ (fun y hy => hts y (List.mem_cons_of_mem _ hy)) hs₂'
        (fun hi => hbusy (hidle'.mp hi)) hrun' hun' with ⟨r, hr, hunr, hlast, hbusy'⟩
      refine ⟨r, (run_cons step s r x ts).mpr ⟨b, hb, hr⟩, ?_, hlast, hbusy'⟩
      exact (unended_cons step idle s b x ts hb).mpr ⟨fun hi => hx (hidle.mp hi), hunr⟩

include h in
/-- The steps of a thread can be made first, if it is apart from all others in the end. -/
theorem to_front [DecidableEq ι] (s c : σ) (t : ι) (l : List ι) (hrun : run step s l = some c)
    (hun : Unended step idle s l) (hap : ∀ u ∈ l, t ≠ u → apart c t u) :
    ∃ r, run step s (l.filter (· = t)) = some r ∧ Unended step idle s (l.filter (· = t))
      ∧ run step r (l.filter (· ≠ t)) = some c ∧ Unended step idle r (l.filter (· ≠ t)) := by
  induction l generalizing s with
  | nil =>
      rw [run_nil, Option.some.injEq] at hrun
      exact ⟨s, rfl, trivial, hrun ▸ rfl, trivial⟩
  | cons x l ih =>
      rcases (run_cons step s c x l).mp hrun with ⟨s₁, hs₁, hrest⟩
      rcases (unended_cons step idle s s₁ x l hs₁).mp hun with ⟨hbusy, hun'⟩
      rcases ih s₁ hrest hun' (fun u hu => hap u (List.mem_cons_of_mem _ hu)) with
        ⟨r₁, hfront, hunfront, hback, hunback⟩
      by_cases hx : x = t
      · -- The first step is the thread's own, and stays the first.
        rw [List.filter_cons_of_pos (by simpa using hx),
          List.filter_cons_of_neg (by simpa using hx)]
        refine ⟨r₁, (run_cons step s r₁ x _).mpr ⟨s₁, hs₁, hfront⟩, ?_, hback, hunback⟩
        exact (unended_cons step idle s s₁ x _ hs₁).mpr ⟨hbusy, hunfront⟩
      · rw [List.filter_cons_of_neg (by simpa using hx),
          List.filter_cons_of_pos (by simpa using hx)]
        -- The first step is another thread's, and goes behind what has been brought together.
        have hts : ∀ y ∈ l.filter (· = t), y = t := by
          intro y hy
          simpa using (List.mem_filter.mp hy).2
        rcases step_behind step idle apart h s s₁ r₁ c t x _ _ (Ne.symm hx) hts hs₁ hbusy hfront
          hunfront hback hunback (hap x List.mem_cons_self (Ne.symm hx)) with
          ⟨r, hr, hunr, hlast, hbusy'⟩
        refine ⟨r, hr, hunr, (run_cons step r c x _).mpr ⟨r₁, hlast, hback⟩, ?_⟩
        exact (unended_cons step idle r r₁ x _ hlast).mpr ⟨hbusy', hunback⟩

include h in
/-- A step can be made before all those of others it is apart from. -/
theorem end_to_front (r c c' : σ) (t : ι) (l : List ι) (hrun : run step r l = some c)
    (hun : Unended step idle r l) (hne : ∀ u ∈ l, t ≠ u) (hap : ∀ u ∈ l, apart c t u)
    (ht : step c t = some c') :
    ∃ b, step r t = some b ∧ run step b l = some c' ∧ Unended step idle b l
      ∧ (idle b t ↔ idle c' t) := by
  induction l generalizing r with
  | nil =>
      rw [run_nil, Option.some.injEq] at hrun
      exact ⟨c', hrun ▸ ht, rfl, trivial, Iff.rfl⟩
  | cons u l ih =>
      -- The step has been brought before all but this one, and is exchanged with it.
      have htu := hne u List.mem_cons_self
      have hap' := apart_before step idle apart h r c t u _ hrun hun htu
        (hap u List.mem_cons_self)
      rcases (run_cons step r c u l).mp hrun with ⟨r₁, hr₁, hrest⟩
      rcases (unended_cons step idle r r₁ u l hr₁).mp hun with ⟨hbusy, hun'⟩
      rcases ih r₁ hrest hun' (fun x hx => hne x (List.mem_cons_of_mem _ hx))
        (fun x hx => hap x (List.mem_cons_of_mem _ hx)) with ⟨b₁, hb₁, hback, hunback, hidle⟩
      rcases swap_step step idle apart h r r₁ b₁ t u htu hap' hr₁ hb₁ with
        ⟨b, hb, hb₁', hidle', hidle''⟩
      refine ⟨b, hb, (run_cons step b c' u l).mpr ⟨b₁, hb₁', hback⟩, ?_, hidle'.trans hidle⟩
      refine (unended_cons step idle b b₁ u l hb₁').mpr ⟨?_, hunback⟩
      exact fun hi => hbusy (hidle''.mp hi)

end Steps

section Runs

variable [DecidableEq ι] (step : σ → ι → Option σ) (idle : σ → ι → Prop)
  [∀ s t, Decidable (idle s t)] (apart : σ → ι → ι → Prop) (atom : σ → ι → Option σ)
  (h : Independent step idle apart)
  (hsolo : ∀ s m b t n, idle s t → run step s (List.replicate n t) = some m →
    Unended step idle s (List.replicate n t) → step m t = some b → idle b t →
    atom s t = some b)

include h hsolo in
/-- A run in which all threads are apart at all times is a run of operations, in the order of
    their ends, and then of the steps of those that have not ended. -/
theorem linearized (a s c : σ) (l es : List ι) (hidle : ∀ t, idle a t)
    (hl : run step a l = some s) (hun : Unended step idle a l)
    (hap : Throughout step (fun s => ∀ t u, t ≠ u → apart s t u) s es)
    (hrun : run step s es = some c) :
    ∃ a' l', run atom a (record step (ends step idle) s es) = some a' ∧ (∀ t, idle a' t)
      ∧ run step a' l' = some c ∧ Unended step idle a' l' := by
  induction es generalizing a s l with
  | nil =>
      rw [run_nil, Option.some.injEq] at hrun
      exact ⟨a, l, rfl, hidle, hrun ▸ hl, hun⟩
  | cons t es ih =>
      rcases (run_cons step s c t es).mp hrun with ⟨s', hs', hrest⟩
      have hapart := hap.1
      rw [record_cons step _ s s' t es hs']
      by_cases hends : idle s' t
      · -- The operation ends: its steps are brought together, and then its end to them.
        have hone : ends step idle s t = [t] := by
          simp only [ends, hs', if_pos hends]
        rcases to_front step idle apart h a s t l hl hun (fun u _ htu => hapart t u htu) with
          ⟨m, hfront, hunfront, hback, hunback⟩
        have hothers : ∀ u ∈ l.filter (· ≠ t), t ≠ u := by
          intro u hu
          exact Ne.symm (by simpa using (List.mem_filter.mp hu).2)
        rcases end_to_front step idle apart h m s s' t _ hback hunback hothers
          (fun u hu => hapart t u (hothers u hu)) hs' with ⟨b, hb, hback', hunback', hidle'⟩
        have hrep : l.filter (· = t) = List.replicate (l.filter (· = t)).length t := by
          refine List.eq_replicate_of_mem fun x hx => ?_
          simpa using (List.mem_filter.mp hx).2
        rw [hrep] at hfront hunfront
        have hbidle := hidle'.mpr hends
        have hatom := hsolo a m b t _ (hidle t) hfront hunfront hb hbidle
        -- The others have not moved.
        have hall : ∀ u, idle b u := by
          intro u
          by_cases hut : u = t
          · exact hut ▸ hbidle
          · rw [h.frame m b t u hb hut, idle_run step idle apart h a m u _ hfront]
            · exact hidle u
            · intro hmem
              exact hut (List.eq_of_mem_replicate hmem)
        rcases ih b s' _ hall hback' hunback' (hap.2 s' hs') hrest with
          ⟨a', l', hops, hidle'', hl', hun'⟩
        refine ⟨a', l', ?_, hidle'', hl', hun'⟩
        rw [hone, List.singleton_append]
        exact (run_cons atom a a' t _).mpr ⟨b, hatom, hops⟩
      · -- The operation goes on: its step stands behind those that end nothing.
        have hnone : ends step idle s t = [] := by
          simp only [ends, hs', if_neg hends]
        rw [hnone, List.nil_append]
        exact ih a s' (l ++ [t]) hidle
          ((run_append step a s' l [t]).mpr ⟨s, hl, (run_cons step s s' t []).mpr ⟨s', hs', rfl⟩⟩)
          (unended_concat step idle a s s' t l hl hs' hun hends) (hap.2 s' hs') hrest

end Runs

end Threads
