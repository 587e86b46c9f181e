import Mathlib.Data.List.Perm.Basic
import Mathlib.Data.List.Nodup
import Mathlib.Data.List.Count
import Mathlib.Logic.Function.Basic

/-!
# Labelled Slots

Places that hold values for keys, most of the keys having no place.

There is a fixed number of places and each is labelled with the key whose value it
holds, or with none. To hold another value a place is relabelled, whatever it has held
before. The order of the places says which to take next and nothing else, so that
everything here is about lists up to permutation: a place is taken out as the head of a
list, and put back relabelled.

Three things are kept. No two places have the same key, for otherwise one of them would
hold what was written last and the other would be found. The keys fall into groups, and
no group has more places than it may. And what a place holds is what was last written
for its key.

## Main definitions

* `Distinct`: No two places have the same key.
* `load`: How many places hold values for keys of a group.
* `Coherent`: The places hold the values last written.

## Theorems

* `set_perm`: A place is relabelled where it stands.
* `back_perm`: A place is moved to the end.
* `distinct_refill`, `load_refill`, `coherent_refill`: A place is relabelled.
* `distinct_empty`: A place is emptied.
* `distinct_fresh`: A key of one place is not the key of another.
-/

namespace Slots

variable {α κ γ β : Type*}

/-- Relabelling the place at an index takes one place out and puts another in. -/
theorem set_perm (l : List α) (i : Nat) (a a' : α) (h : l[i]? = some a) :
    ∃ rest, l.Perm (a :: rest) ∧ (l.set i a').Perm (a' :: rest) := by
  rcases List.getElem?_eq_some_iff.mp h with ⟨hi, hget⟩
  refine ⟨l.eraseIdx i, ?_, List.set_perm_cons_eraseIdx hi a'⟩
  rw [← hget]
  exact (List.getElem_cons_eraseIdx_perm hi).symm

/-- Moving the place at an index to the end changes only the order. -/
theorem back_perm (l : List α) (i : Nat) (a : α) (h : l[i]? = some a) :
    (l.eraseIdx i ++ [a]).Perm l := by
  rcases List.getElem?_eq_some_iff.mp h with ⟨hi, hget⟩
  rw [← hget]
  exact (List.perm_append_singleton _ _).trans (List.getElem_cons_eraseIdx_perm hi)

variable (key : α → Option κ)

/-- No two places have the same key. -/
def Distinct (l : List α) : Prop :=
  (l.filterMap key).Nodup

theorem distinct_perm (l l' : List α) (hp : l.Perm l') (h : Distinct key l) : Distinct key l' :=
  (hp.filterMap key).nodup_iff.mp h

/-- Places stay distinct without the first one. -/
theorem distinct_tail (a : α) (rest : List α) (h : Distinct key (a :: rest)) :
    Distinct key rest := by
  unfold Distinct at h ⊢
  rw [List.filterMap_cons] at h
  cases hka : key a with
  | none => rwa [hka] at h
  | some j =>
      rw [hka] at h
      exact (List.nodup_cons.mp h).2

/-- A place may be emptied. -/
theorem distinct_empty (a a' : α) (rest : List α) (h : Distinct key (a :: rest))
    (ha' : key a' = none) : Distinct key (a' :: rest) := by
  have hrest := distinct_tail key a rest h
  unfold Distinct at hrest ⊢
  rwa [List.filterMap_cons, ha']

/-- A place may be relabelled with the key it has or with one that no place has. -/
theorem distinct_refill (a a' : α) (rest : List α) (k : κ) (h : Distinct key (a :: rest))
    (ha' : key a' = some k) (hk : key a = some k ∨ ∀ b ∈ rest, key b ≠ some k) :
    Distinct key (a' :: rest) := by
  have hrest := distinct_tail key a rest h
  -- The new key is the one that is replaced or one that nobody had.
  have hfresh : k ∉ rest.filterMap key := by
    rcases hk with hka | hno
    · unfold Distinct at h
      rw [List.filterMap_cons, hka] at h
      exact (List.nodup_cons.mp h).1
    · intro hmem
      rcases List.mem_filterMap.mp hmem with ⟨b, hb, hkb⟩
      exact hno b hb hkb
  unfold Distinct
  rw [List.filterMap_cons, ha']
  exact List.nodup_cons.mpr ⟨hfresh, hrest⟩

/-- No other place has the key of the first one. -/
theorem distinct_fresh (a : α) (rest : List α) (k : κ) (h : Distinct key (a :: rest))
    (ha : key a = some k) : ∀ b ∈ rest, key b ≠ some k := by
  intro b hb hkb
  unfold Distinct at h
  rw [List.filterMap_cons, ha] at h
  exact (List.nodup_cons.mp h).1 (List.mem_filterMap.mpr ⟨b, hb, hkb⟩)

/-- Places without a key are distinct. -/
theorem distinct_of_blank (l : List α) (h : ∀ a ∈ l, key a = none) : Distinct key l := by
  unfold Distinct
  rw [List.filterMap_eq_nil_iff.mpr h]
  exact List.nodup_nil

variable (group : κ → γ) [DecidableEq γ]

/-- How many places hold values for keys of a group. -/
def load (g : γ) (l : List α) : Nat :=
  l.countP fun a => (key a).map group = some g

theorem load_perm (l l' : List α) (hp : l.Perm l') (g : γ) :
    load key group g l = load key group g l' :=
  hp.countP_eq _

/-- Relabelling a place with a key of a group adds one to the group at most, and nothing
    if the place was the group's already. -/
theorem load_refill (a a' : α) (rest : List α) (k : κ) (m : Nat) (g : γ)
    (h : load key group g (a :: rest) ≤ m) (ha' : key a' = some k)
    (hroom : key a = some k ∨ load key group (group k) (a :: rest) < m) :
    load key group g (a' :: rest) ≤ m := by
  unfold load at h hroom ⊢
  rw [List.countP_cons] at h ⊢
  rw [ha', Option.map_some]
  -- Only the group of the new key can have become larger.
  by_cases hg : group k = g
  · rw [if_pos (decide_eq_true (congrArg some hg))]
    rcases hroom with hka | hlt
    · rw [hka, Option.map_some, if_pos (decide_eq_true (congrArg some hg))] at h
      exact h
    · rw [hg, List.countP_cons] at hlt
      omega
  · rw [if_neg (fun hc => hg (Option.some.inj (of_decide_eq_true hc)))]
    omega

/-- What a place holds is what was last written for its key. -/
def Coherent (value : α → β) (written : κ → Option β) (l : List α) : Prop :=
  ∀ a ∈ l, ∀ k, key a = some k → written k = some (value a)

theorem coherent_perm (value : α → β) (written : κ → Option β) (l l' : List α) (hp : l.Perm l')
    (h : Coherent key value written l) : Coherent key value written l' :=
  fun a ha k hk => h a (hp.mem_iff.mpr ha) k hk

/-- Writing a value for a key into a place that is relabelled for it. The other places
    keep what they hold. -/
theorem coherent_refill [DecidableEq κ] (value value' : α → β) (written : κ → Option β) (a a' : α)
    (rest : List α) (k : κ) (h : Coherent key value written (a :: rest))
    (ha' : key a' = some k) (hno : ∀ b ∈ rest, key b ≠ some k)
    (hkeep : ∀ b ∈ rest, value' b = value b) :
    Coherent key value' (Function.update written k (some (value' a'))) (a' :: rest) := by
  intro b hb j hj
  rcases List.mem_cons.mp hb with rfl | hrest
  · obtain rfl : k = j := Option.some.inj (ha'.symm.trans hj)
    rw [Function.update_self]
  -- The other places are for other keys, of which the record has not changed.
  · have hne : j ≠ k := by
      rintro rfl
      exact hno b hrest hj
    rw [Function.update_of_ne hne, hkeep b hrest]
    exact h b (List.mem_cons_of_mem a hrest) j hj

end Slots
