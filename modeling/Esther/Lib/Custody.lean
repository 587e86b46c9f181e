import Mathlib.Data.List.Perm.Subperm

/-!
# Custody of Lent Items

Items that an owner lends to holders, one holder at a time.

The owner keeps a register of what is lent and of what is retired. Holders and the
register are not updated together: a holder gives an item up first, and the owner
takes it off the register later, when it hears of it. In between the item is
*returned*. `Exclusive` is what relates the two sides at every moment, and there is
one lemma for each thing that can happen to an item.

What a holder has is a list, because an item can be on its way more than once. That
it never is, is part of `Exclusive`.

## Main definitions

* `Exclusive`: An item is with one holder at most, and lent while it is.

## Theorems

* `exclusive_subperm`: Holders may drop items and change their order.
* `exclusive_grant`: An item that is not lent is lent to a holder.
* `exclusive_release`: A holder gives an item up.
* `exclusive_retire`: A returned item is taken off the register.
-/

namespace Custody

variable {ι α : Type*}

/-- An item is with one holder at most, once, and lent while it is; a returned item
    is lent or retired and with nobody. -/
structure Exclusive (lent retired : α → Prop) (holding : ι → List α) (returned : α → Prop) :
    Prop where
  lent_of_mem : ∀ c a, a ∈ holding c → lent a
  nodup : ∀ c, (holding c).Nodup
  apart : ∀ c d a, a ∈ holding c → a ∈ holding d → c = d
  registered : ∀ a, returned a → lent a ∨ retired a
  free : ∀ a, returned a → ∀ c, a ∉ holding c

/-- Nothing is lent. -/
theorem exclusive_empty (lent retired : α → Prop) :
    Exclusive lent retired (fun _ : ι => []) fun _ => False where
  lent_of_mem := fun _ _ h => absurd h (List.not_mem_nil)
  nodup := fun _ => List.nodup_nil
  apart := fun _ _ _ h _ => absurd h (List.not_mem_nil)
  registered := fun _ h => h.elim
  free := fun _ h => h.elim

/-- Holders may drop items and change their order, and the register may grow. -/
theorem exclusive_subperm (lent lent' retired retired' : α → Prop) (holding holding' : ι → List α)
    (returned returned' : α → Prop) (h : Exclusive lent retired holding returned)
    (hlent : ∀ a, lent a → lent' a) (hretired : ∀ a, retired a → retired' a)
    (hholding : ∀ c, (holding' c).Subperm (holding c))
    (hreturned : ∀ a, returned' a → returned a) : Exclusive lent' retired' holding' returned' where
  lent_of_mem := fun c a ha => hlent a (h.lent_of_mem c a ((hholding c).subset ha))
  nodup := fun c => by
    rcases hholding c with ⟨l, hperm, hsub⟩
    exact hperm.nodup_iff.mp ((h.nodup c).sublist hsub)
  apart := fun c d a hc hd => h.apart c d a ((hholding c).subset hc) ((hholding d).subset hd)
  registered := fun a ha => (h.registered a (hreturned a ha)).imp (hlent a) (hretired a)
  free := fun a ha c hc => h.free a (hreturned a ha) c ((hholding c).subset hc)

/-- An item that is neither lent nor retired is lent to a holder. -/
theorem exclusive_grant (lent lent' retired : α → Prop) (holding holding' : ι → List α)
    (returned : α → Prop) (a : α) (c : ι) (h : Exclusive lent retired holding returned)
    (hnew : ¬ lent a) (hlive : ¬ retired a) (hlent : ∀ b, lent' b ↔ lent b ∨ b = a)
    (hc : (holding' c).Perm (a :: holding c)) (hother : ∀ d, d ≠ c → holding' d = holding d) :
    Exclusive lent' retired holding' returned := by
  have hfree : ∀ d, a ∉ holding d := fun d ha => hnew (h.lent_of_mem d a ha)
  have hmem : ∀ d b, b ∈ holding' d → b ∈ holding d ∨ (d = c ∧ b = a) := by
    intro d b hb
    by_cases hd : d = c
    · subst hd
      rcases List.mem_cons.mp (hc.subset hb) with heq | hold
      · exact Or.inr ⟨rfl, heq⟩
      · exact Or.inl hold
    · exact Or.inl (hother d hd ▸ hb)
  refine ⟨fun d b hb => ?_, fun d => ?_, fun d e b hd he => ?_, fun b hb => ?_, fun b hb d hd => ?_⟩
  · rcases hmem d b hb with hold | ⟨-, heq⟩
    · exact (hlent b).mpr (Or.inl (h.lent_of_mem d b hold))
    · exact (hlent b).mpr (Or.inr heq)
  · by_cases hd : d = c
    · subst hd
      exact hc.nodup_iff.mpr (List.nodup_cons.mpr ⟨hfree d, h.nodup d⟩)
    · rw [hother d hd]
      exact h.nodup d
  · rcases hmem d b hd with hold | ⟨rfl, rfl⟩
    · rcases hmem e b he with hold' | ⟨rfl, rfl⟩
      · exact h.apart d e b hold hold'
      · exact absurd hold (hfree d)
    · rcases hmem e b he with hold' | ⟨rfl, -⟩
      · exact absurd hold' (hfree e)
      · rfl
  · exact (h.registered b hb).imp_left fun hlb => (hlent b).mpr (Or.inl hlb)
  · rcases hmem d b hd with hold | ⟨-, rfl⟩
    · exact h.free b hb d hold
    -- What is returned is registered, and the new item was not.
    · rcases h.registered b hb with hl | hr
      · exact hnew hl
      · exact hlive hr

/-- A holder gives an item up. -/
theorem exclusive_release (lent retired : α → Prop) (holding holding' : ι → List α)
    (returned returned' : α → Prop) (a : α) (c : ι) (h : Exclusive lent retired holding returned)
    (hc : (a :: holding' c).Subperm (holding c)) (hother : ∀ d, d ≠ c → holding' d = holding d)
    (hreturned : ∀ b, returned' b → b = a ∨ returned b) :
    Exclusive lent retired holding' returned' := by
  -- What is released was held by `c` alone.
  have ha : a ∈ holding c := hc.subset (List.mem_cons_self)
  have hsub : ∀ d, (holding' d).Subperm (holding d) := by
    intro d
    by_cases hd : d = c
    · subst hd
      exact (List.sublist_cons_self a (holding' d)).subperm.trans hc
    · rw [hother d hd]
  have hrest := exclusive_subperm lent lent retired retired holding holding' returned returned h
    (fun _ hb => hb) (fun _ hb => hb) hsub fun _ hb => hb
  refine ⟨hrest.lent_of_mem, hrest.nodup, hrest.apart, fun b hb => ?_, fun b hb d hd => ?_⟩
  · rcases hreturned b hb with rfl | hold
    · exact Or.inl (h.lent_of_mem c b ha)
    · exact h.registered b hold
  · rcases hreturned b hb with rfl | hold
    · -- Whoever held it still would be `c`, which has it once.
      obtain rfl := h.apart c d b ha ((hsub d).subset hd)
      rcases hc with ⟨l, hperm, hlist⟩
      have hnodup := hperm.nodup_iff.mp ((h.nodup c).sublist hlist)
      exact (List.nodup_cons.mp hnodup).1 hd
    · exact hrest.free b hold d hd

/-- A returned item is taken off the register. -/
theorem exclusive_retire (lent lent' retired retired' : α → Prop) (holding : ι → List α)
    (returned returned' : α → Prop) (a : α) (h : Exclusive lent retired holding returned)
    (ha : returned a) (hlent : ∀ b, b ≠ a → lent b → lent' b) (hretired : ∀ b, retired b → retired' b)
    (hself : retired' a) (hreturned : ∀ b, returned' b → returned b) :
    Exclusive lent' retired' holding returned' := by
  refine ⟨fun c b hb => ?_, h.nodup, h.apart, fun b hb => ?_, fun b hb => h.free b (hreturned b hb)⟩
  · exact hlent b (fun heq => h.free a ha c (heq ▸ hb)) (h.lent_of_mem c b hb)
  · by_cases hb' : b = a
    · exact Or.inr (hb' ▸ hself)
    · exact (h.registered b (hreturned b hb)).imp (hlent b hb') (hretired b)

end Custody
