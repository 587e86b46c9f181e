import Esther.Theory.Sequence

/-!
# Questions about Lists

Whether the functions that look through a list agree about what is in it.

Three of them do, and so does the one that makes a list of what is found: `mlist_count` and
`mlist_filter` go through all nodes, and `mlist_index` counts how many it has passed.
`mlist_any` asks `mlist_find` for an element and takes null for there being none. An
element may be null, and so may an integer that is kept as a pointer. What is asked is then
answered by the first element that is found, and `mlist_all`, which asks for one that does
not meet the condition, by the first of those.

## Main definitions

* `Concuerdan`: The functions agree on a condition.
* `SinNulo`: The elements that are found first are not null.

## Theorems

* `any_iff`, `all_iff`: When the two answers are right.
* `concuerdan_iff`: When all answers are right.
* `null_is_none`: A list whose one element is null.
-/

namespace Esther

namespace Common

variable {α : Type}

/-- The functions that look through a list agree about the elements that meet a condition. -/
structure Concuerdan (malloc : Nat → Finmap (fun _ : Nat => Node α) → Nat) (m : Memory α)
    (list : Mlist) (elems : List (Option α)) (cond : Option α → Bool) : Prop where
  any : ∃ b, mlistAny list cond m = some b ∧ (b = true ↔ ∃ x ∈ elems, cond x = true)
  count : ∃ n, mlistCount list cond m = some n ∧ (0 < n ↔ ∃ x ∈ elems, cond x = true)
  index : ∃ i, mlistIndex list cond m = some i ∧ (i ≠ -1 ↔ ∃ x ∈ elems, cond x = true) ∧
    (i ≠ -1 → ∃ k : Nat, i = k ∧ (∃ x, elems[k]? = some x ∧ cond x = true) ∧
      ∀ j < k, ∃ x, elems[j]? = some x ∧ cond x = false)
  filter : ∃ list' m', mlistFilter malloc list cond m = some (list', m') ∧
    (mlistEmpty list' = false ↔ ∃ x ∈ elems, cond x = true)
  all : ∃ b, mlistAll list cond m = some b ∧ (b = true ↔ ∀ x ∈ elems, cond x = true)

/-- The first element that meets a condition is not null, and neither is the first that does
    not meet it. -/
def SinNulo (elems : List (Option α)) (cond : Option α → Bool) : Prop :=
  elems.find? cond ≠ some none ∧ elems.find? (fun x => !cond x) ≠ some none

theorem find?_exists (elems : List (Option α)) (cond : Option α → Bool) :
    (∃ x ∈ elems, cond x = true) ↔ elems.find? cond ≠ none := by
  rw [← List.find?_isSome, Option.isSome_iff_ne_none]

/-- An element that is found counts unless it is null. -/
theorem join_isSome_iff (elems : List (Option α)) (cond : Option α → Bool) :
    ((elems.find? cond).join.isSome = true ↔ ∃ x ∈ elems, cond x = true) ↔
      elems.find? cond ≠ some none := by
  rw [find?_exists]
  cases elems.find? cond with
  | none => exact iff_of_true (iff_of_false Bool.false_ne_true fun h => h rfl) (fun h => nomatch h)
  | some x => cases x with
    | none => exact iff_of_false (fun h => nomatch h.mpr (fun h => nomatch h)) fun h => h rfl
    | some x => exact iff_of_true (iff_of_true rfl fun h => nomatch h) (fun h => nomatch h)

/-- The answer of `mlist_any` is right unless the first element that is found is null. -/
theorem any_iff (m : Memory α) (list : Mlist) (nodes : List (Nat × Option α))
    (cond : Option α → Bool) (hrep : Rep m list nodes) :
    (∃ b, mlistAny list cond m = some b ∧
      (b = true ↔ ∃ x ∈ nodes.map Prod.snd, cond x = true)) ↔
      (nodes.map Prod.snd).find? cond ≠ some none := by
  rw [mlistAny_spec m list nodes cond hrep, ← join_isSome_iff]
  simp only [Option.some.injEq, exists_eq_left']

/-- The answer of `mlist_all` is right unless the first element that is not found is null. -/
theorem all_iff (m : Memory α) (list : Mlist) (nodes : List (Nat × Option α))
    (cond : Option α → Bool) (hrep : Rep m list nodes) :
    (∃ b, mlistAll list cond m = some b ∧
      (b = true ↔ ∀ x ∈ nodes.map Prod.snd, cond x = true)) ↔
      (nodes.map Prod.snd).find? (fun x => !cond x) ≠ some none := by
  have hall : mlistAll list cond m
      = some !((nodes.map Prod.snd).find? fun x => !cond x).join.isSome := by
    rw [mlistAll, mlistAny_spec m list nodes _ hrep]
    rfl
  -- The condition fails somewhere exactly if not all elements meet it.
  have hsome : (∃ x ∈ nodes.map Prod.snd, (!cond x) = true) ↔
      ¬ ∀ x ∈ nodes.map Prod.snd, cond x = true := by
    simp only [Bool.not_eq_true', not_forall, Bool.not_eq_true, exists_prop]
  rw [hall, ← join_isSome_iff, hsome]
  simp only [Option.some.injEq, exists_eq_left', Bool.not_eq_true', ← Bool.not_eq_true]
  exact not_iff_comm.trans ⟨Iff.symm, Iff.symm⟩

theorem count_spec (m : Memory α) (list : Mlist) (nodes : List (Nat × Option α))
    (cond : Option α → Bool) (hrep : Rep m list nodes) :
    ∃ n, mlistCount list cond m = some n ∧
      (0 < n ↔ ∃ x ∈ nodes.map Prod.snd, cond x = true) := by
  refine ⟨_, mlistCount_spec m list nodes cond hrep, ?_⟩
  rw [← Nat.cast_zero, Int.ofNat_lt, List.countP_pos_iff]

theorem index_spec (m : Memory α) (list : Mlist) (nodes : List (Nat × Option α))
    (cond : Option α → Bool) (hrep : Rep m list nodes) :
    ∃ i, mlistIndex list cond m = some i ∧
      (i ≠ -1 ↔ ∃ x ∈ nodes.map Prod.snd, cond x = true) ∧
      (i ≠ -1 → ∃ k : Nat, i = k ∧ (∃ x, (nodes.map Prod.snd)[k]? = some x ∧ cond x = true) ∧
        ∀ j < k, ∃ x, (nodes.map Prod.snd)[j]? = some x ∧ cond x = false) := by
  refine ⟨_, mlistIndex_spec m list nodes cond hrep, ?_⟩
  by_cases hany : (nodes.map Prod.snd).any cond = true
  · have hlt := List.findIdx_lt_length.mpr (List.any_eq_true.mp hany)
    rw [if_pos hany]
    refine ⟨iff_of_true (by omega) (List.any_eq_true.mp hany), fun _ => ⟨_, rfl, ?_, ?_⟩⟩
    · exact ⟨_, List.getElem?_eq_getElem hlt, List.findIdx_getElem⟩
    · intro j hj
      refine ⟨_, List.getElem?_eq_getElem (hj.trans hlt), ?_⟩
      exact List.not_of_lt_findIdx hj
  · rw [if_neg hany]
    refine ⟨iff_of_false (fun h => h rfl) fun h => hany (List.any_eq_true.mpr h), ?_⟩
    exact fun h => absurd rfl h

theorem filter_spec (malloc : Nat → Finmap (fun _ : Nat => Node α) → Nat)
    (hmalloc : ∀ n nodes, malloc n nodes ∉ nodes) (m : Memory α) (list : Mlist)
    (nodes : List (Nat × Option α)) (cond : Option α → Bool) (hrep : Rep m list nodes) :
    ∃ list' m', mlistFilter malloc list cond m = some (list', m') ∧
      (mlistEmpty list' = false ↔ ∃ x ∈ nodes.map Prod.snd, cond x = true) := by
  rcases (makes_filter malloc hmalloc cond m list nodes hrep).made with
    ⟨list', m', hmade, ⟨nodes', hformed, helems⟩, _⟩
  refine ⟨list', m', hmade, ?_⟩
  have hlength := congrArg List.length helems
  rw [List.length_map] at hlength
  rw [mlistEmpty, hformed.length, hlength, ← List.countP_eq_length_filter, ← List.countP_pos_iff,
    beq_eq_false_iff_ne]
  omega

/-- The functions agree exactly if the first element that meets the condition and the first
    that does not are not null. -/
theorem concuerdan_iff (malloc : Nat → Finmap (fun _ : Nat => Node α) → Nat)
    (hmalloc : ∀ n nodes, malloc n nodes ∉ nodes) (m : Memory α) (list : Mlist)
    (nodes : List (Nat × Option α)) (cond : Option α → Bool) (hrep : Rep m list nodes) :
    Concuerdan malloc m list (nodes.map Prod.snd) cond ↔ SinNulo (nodes.map Prod.snd) cond := by
  constructor
  · intro h
    exact ⟨(any_iff m list nodes cond hrep).mp h.any, (all_iff m list nodes cond hrep).mp h.all⟩
  · rintro ⟨hmeets, hfails⟩
    exact ⟨(any_iff m list nodes cond hrep).mpr hmeets, count_spec m list nodes cond hrep,
      index_spec m list nodes cond hrep, filter_spec malloc hmalloc m list nodes cond hrep,
      (all_iff m list nodes cond hrep).mpr hfails⟩

/-- A memory with one node. -/
def unNodo (element : Option Nat) : Memory Nat :=
  { nodes := Finmap.singleton 1 { prev := none, next := none, elem := element }, mallocs := 0 }

/-- The list of that node. -/
def unaLista : Mlist := { head := some 1, tail := some 1, length := 1 }

theorem rep_unaLista (element : Option Nat) : Rep (unNodo element) unaLista [(1, element)] := by
  refine ⟨rfl, rfl, rfl, List.nodup_singleton 1, ⟨?_, trivial⟩, (fitsInt_iff 1).mpr (by decide)⟩
  exact Finmap.lookup_singleton_eq

/-- A list with the process 7, in which the kernel looks for it. -/
theorem concuerdan_one : Concuerdan sampleMalloc (unNodo (some 7)) unaLista [some 7]
    (fun pid => pid == some 7) :=
  (concuerdan_iff sampleMalloc sampleMalloc_fresh (unNodo (some 7)) unaLista [(1, some 7)]
    (fun pid => pid == some 7) (rep_unaLista (some 7))).mpr ⟨by decide, by decide⟩

/-- In a list whose one element is null, one element meets the condition that it is null, and
    `mlist_any` finds none. -/
theorem null_is_none :
    Rep (unNodo none) unaLista [(1, none)] ∧
      mlistCount unaLista (fun element => element == none) (unNodo none) = some 1 ∧
      mlistAny unaLista (fun element => element == none) (unNodo none) = some false ∧
      ¬ Concuerdan sampleMalloc (unNodo none) unaLista [none] fun element => element == none := by
  have hrep := rep_unaLista none
  have hany := mlistAny_spec (unNodo none) unaLista [(1, none)] (fun element => element == none)
    hrep
  refine ⟨hrep, ?_, hany, fun h => ?_⟩
  · exact mlistCount_spec (unNodo none) unaLista [(1, none)] (fun element => element == none) hrep
  · rcases h.any with ⟨b, hb, hiff⟩
    rw [hany, Option.some.injEq] at hb
    have hfound : ∃ x ∈ [(none : Option Nat)], (x == none) = true := by decide
    exact Bool.false_ne_true (hb.trans (hiff.mpr hfound))

end Common

end Esther
