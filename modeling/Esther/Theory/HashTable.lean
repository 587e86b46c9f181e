import Esther.Core.HashTable
import Mathlib.Data.List.TakeWhile

/-!
# Looking Pages Up

What is found in the hash table, whatever is in it.

The key of a page is the number that is read when that of the process and that of the
page are written one after the other. Both are short enough that it is an `int`, and
it is not negative, so that its remainder is a slot. From that slot on the table is
searched in three pieces, which together are the cyclic order of its slots.

## Main definitions

* `Clave`: The processes and pages there are.
* `indice`: What `element_search` returns for the slot it has found.
* `Busca`, `Borra`: What searching for a pair and deleting it should do.

## Theorems

* `createKeys_eq`: The number behind a key.
* `createKeys_lt`: A key is a slot.
* `elementSearch_eq`: The search is for the first slot in cyclic order.
* `deleteElement_eq`: The slot that is found is cleared.
* `elementSearch_exact`: Searching and deleting are exact on any table.
-/

namespace Esther

namespace Memoria

open Probing

/-! ### Keys -/

/-- The processes and pages there are. -/
structure Clave (page idProcess : Int) : Prop where
  proceso : 1 ≤ idProcess ∧ idProcess ≤ 255
  pagina : 0 ≤ page ∧ page ≤ 32767

theorem sprintfD_nonneg (n : Int) (h : 0 ≤ n) : sprintfD n = Nat.toDigits 10 n.toNat := by
  rw [sprintfD, if_neg (not_lt.mpr h)]
  congr 1
  omega

theorem sprintfD_isDigit (n : Int) (h : 0 ≤ n) : ∀ c ∈ sprintfD n, c.isDigit = true := by
  intro c hc
  rw [sprintfD_nonneg n h] at hc
  exact Nat.isDigit_of_mem_toDigits (by omega) (by omega) hc

theorem sprintfD_length (n : Int) (k : Nat) (h : 0 ≤ n) (hk : 0 < k) (hn : n.toNat < 10 ^ k) :
    (sprintfD n).length ≤ k := by
  rw [sprintfD_nonneg n h]
  exact (Nat.length_toDigits_le_iff (by omega) hk).mpr hn

/-- A digit is neither a blank nor a sign. -/
theorem isDigit_first (c : Char) (h : c.isDigit = true) :
    isSpace c = false ∧ c ≠ '-' ∧ c ≠ '+' := by
  refine ⟨?_, ?_, ?_⟩
  · have hlow : 48 ≤ c.toNat := by
      simp only [Char.isDigit, Bool.and_eq_true, decide_eq_true_eq] at h
      exact UInt32.le_iff_toNat_le.mp h.1
    simp only [isSpace, Bool.or_eq_false_iff, beq_eq_false_iff_ne, Bool.and_eq_false_iff,
      decide_eq_false_iff_not]
    omega
  · rintro rfl
    exact absurd h (by decide)
  · rintro rfl
    exact absurd h (by decide)

/-- What `atoi` makes of digits. -/
theorem atoi_digits (str : List Char) (h : ∀ c ∈ str, c.isDigit = true)
    (hint : fitsInt (Nat.ofDigitChars 10 str 0 : Int) = true) :
    atoi str = some (Nat.ofDigitChars 10 str 0 : Int) := by
  have hall : str.takeWhile Char.isDigit = str := List.takeWhile_eq_self_iff.mpr h
  cases str with
  | nil => rfl
  | cons c rest =>
      rcases isDigit_first c (h c List.mem_cons_self) with ⟨hblank, hminus, hplus⟩
      have hdrop : (c :: rest).dropWhile isSpace = c :: rest :=
        List.dropWhile_cons_of_neg (by rw [hblank]; exact Bool.false_ne_true)
      simp only [atoi, hdrop]
      split
      next hc => exact absurd (List.cons.inj hc).1 hminus
      next hc => exact absurd (List.cons.inj hc).1 hplus
      next => simp only [leadingDigits, hall, hint, if_true]

/-- The number that is read when two numbers are written one after the other. -/
def concatenado (page idProcess : Int) : Nat :=
  10 ^ (sprintfD page).length * idProcess.toNat + page.toNat

theorem ofDigitChars_sprintfD (page idProcess : Int) (hid : 0 ≤ idProcess) (hpage : 0 ≤ page) :
    Nat.ofDigitChars 10 (sprintfD idProcess ++ sprintfD page) 0 = concatenado page idProcess := by
  rw [Nat.ofDigitChars_append, Nat.ofDigitChars_eq_ofDigitChars_zero, concatenado]
  simp only [sprintfD_nonneg _ hid, sprintfD_nonneg _ hpage, Nat.ofDigitChars_ten_toDigits]

/-- The number behind a key. -/
theorem createKeys_eq (table : HashTable) (page idProcess : Int) (hne : 1 ≤ table.length)
    (h : Clave page idProcess) :
    createKeys table page idProcess =
      some ((concatenado page idProcess % table.length : Nat) : Int) := by
  rcases h with ⟨⟨hid, hid'⟩, hpage, hpage'⟩
  have hlenId := sprintfD_length idProcess 3 (by omega) (by omega) (by omega)
  have hlenPage := sprintfD_length page 5 hpage (by omega) (by omega)
  have hread := ofDigitChars_sprintfD page idProcess (by omega) hpage
  -- At most three digits before at most five.
  have hsmall : concatenado page idProcess < 2 ^ 31 := by
    have hpow : 10 ^ (sprintfD page).length ≤ 10 ^ 5 := Nat.pow_le_pow_right (by omega) hlenPage
    have hmul : 10 ^ (sprintfD page).length * idProcess.toNat ≤ 10 ^ 5 * 255 :=
      Nat.mul_le_mul hpow (by omega)
    simp only [concatenado]
    omega
  have hatoi := atoi_digits (sprintfD idProcess ++ sprintfD page) (by
    intro c hc
    rcases List.mem_append.mp hc with hc | hc
    · exact sprintfD_isDigit idProcess (by omega) c hc
    · exact sprintfD_isDigit page hpage c hc) (by
    rw [hread]
    simp only [fitsInt, Bool.and_eq_true, decide_eq_true_eq]
    omega)
  have hroom : ¬ (strSize < (sprintfD idProcess ++ sprintfD page).length + 1
      ∨ table.length = 0) := by
    rw [List.length_append, strSize]
    omega
  simp only [createKeys, if_neg hroom, hatoi, hread, Option.map_some, Option.some.injEq]
  exact Int.ofNat_tmod _ _

/-- A key is a slot. -/
theorem createKeys_lt (table : HashTable) (page idProcess : Int) (hne : 1 ≤ table.length)
    (h : Clave page idProcess) :
    ∃ keys : Nat, createKeys table page idProcess = some (keys : Int) ∧ keys < table.length :=
  ⟨_, createKeys_eq table page idProcess hne h, Nat.mod_lt _ hne⟩

/-! ### Searching -/

theorem elementAt_nat (table : HashTable) (i : Nat) : elementAt table i = table[i]? := by
  rw [elementAt, if_neg (by omega), Int.toNat_natCast]

/-- A slot passes the test when it holds the pair. -/
theorem holds_iff (table : HashTable) (page idProcess : Int) (i : Nat) :
    holds table page idProcess i = true ↔
      table[i]? = some { idProcess := idProcess, page := page } := by
  simp only [holds]
  cases table[i]? with
  | none => simp only [Bool.false_eq_true, reduceCtorEq]
  | some element =>
      cases element with
      | mk id pag =>
          simp only [Bool.and_eq_true, beq_iff_eq, Option.some.injEq, ElementHash.mk.injEq]

/-- What `element_search` returns for the slot it has found. -/
def indice : Option Nat → Int
  | some i => i
  | none => -1

theorem indice_eq (r : Option Nat) : indice r = -1 ↔ r = none := by
  cases r with
  | none => simp only [indice]
  | some i => simp only [indice, reduceCtorEq]

/-- The search is for the first slot in cyclic order. -/
theorem elementSearch_eq (table : HashTable) (page idProcess : Int) (keys : Nat)
    (hkeys : createKeys table page idProcess = some (keys : Int)) (hlt : keys < table.length) :
    elementSearch table page idProcess =
      some (indice (first table.length keys (holds table page idProcess))) := by
  have hget : table[keys]? = some table[keys] := List.getElem?_eq_getElem hlt
  simp only [elementSearch, hkeys, Option.bind_eq_bind, Option.bind_some, elementAt_nat, hget,
    Int.toNat_natCast]
  by_cases hhome : holds table page idProcess keys = true
  · have hpair := (holds_iff table page idProcess keys).mp hhome
    rw [hget, Option.some.injEq] at hpair
    rw [if_pos (by rw [hpair]; exact ⟨rfl, rfl⟩), first_home _ _ _ hlt hhome]
    rfl
  · have hpair : ¬ (table[keys].idProcess = idProcess ∧ table[keys].page = page) := by
      intro hpair
      simp only [holds, hget, Bool.and_eq_true, beq_iff_eq] at hhome
      exact hhome hpair
    rw [if_neg hpair, first_split _ _ _ hlt (Bool.not_eq_true _ ▸ hhome)]
    cases scan (holds table page idProcess) (keys + 1) (table.length - (keys + 1)) with
    | some i => rfl
    | none => cases scan (holds table page idProcess) 0 keys with
      | some i => rfl
      | none => rfl

/-- The slot that is found is cleared. -/
theorem deleteElement_eq (table : HashTable) (page idProcess : Int) (keys : Nat)
    (hkeys : createKeys table page idProcess = some (keys : Int)) (hlt : keys < table.length) :
    deleteElement table page idProcess =
      some (match first table.length keys (holds table page idProcess) with
        | some i => (table.set i ElementHash.null, true)
        | none => (table, false)) := by
  simp only [deleteElement, elementSearch_eq table page idProcess keys hkeys hlt,
    Option.bind_eq_bind, Option.bind_some]
  cases hfirst : first table.length keys (holds table page idProcess) with
  | none => rfl
  | some i =>
      have hi := (first_lt _ _ _ _ hlt hfirst).1
      rw [if_neg (by rw [indice_eq]; exact Option.some_ne_none i)]
      simp only [indice, elementAt_nat, List.getElem?_eq_getElem hi, Option.bind_some,
        Int.toNat_natCast]

/-! ### Any table -/

/-- `r` is the first slot that holds the pair in cyclic order from `keys`, or -1. -/
structure Busca (table : HashTable) (page idProcess : Int) (keys : Nat) (r : Int) : Prop where
  ausente : r = -1 ↔ ∀ element ∈ table, element ≠ { idProcess := idProcess, page := page }
  primera : r ≠ -1 → ∃ k < table.length, r = ((keys + k) % table.length : Nat) ∧
    table[(keys + k) % table.length]? = some { idProcess := idProcess, page := page } ∧
    ∀ j < k, table[(keys + j) % table.length]? ≠ some { idProcess := idProcess, page := page }

/-- The slot `r` is cleared and no other, unless it is -1. -/
structure Borra (table : HashTable) (r : Int) (table' : HashTable) (borrado : Bool) : Prop where
  exito : borrado = true ↔ r ≠ -1
  limpia : borrado = true → table'[r.toNat]? = some ElementHash.null ∧
    ∀ j : Nat, j ≠ r.toNat → table'[j]? = table[j]?
  intacta : borrado = false → table' = table

theorem busca_first (table : HashTable) (page idProcess : Int) (keys : Nat)
    (hlt : keys < table.length) :
    Busca table page idProcess keys
      (indice (first table.length keys (holds table page idProcess))) := by
  constructor
  · rw [indice_eq, first_eq_none _ _ _ hlt, List.forall_mem_iff_forall_getElem]
    refine forall_congr' fun i => forall_congr' fun hi => ?_
    rw [← Bool.not_eq_true, holds_iff, List.getElem?_eq_getElem hi, Option.some.injEq]
  · intro hfound
    rcases hfirst : first table.length keys (holds table page idProcess) with _ | i
    · exact absurd ((indice_eq _).mpr hfirst) hfound
    · rcases (first_eq_some _ _ _ _).mp hfirst with ⟨k, hk, rfl, hholds, hbefore⟩
      refine ⟨k, hk, rfl, (holds_iff _ _ _ _).mp hholds, ?_⟩
      intro j hj hheld
      exact absurd ((holds_iff _ _ _ _).mpr hheld) (by rw [hbefore j hj]; exact Bool.false_ne_true)

theorem borra_first (table : HashTable) (page idProcess : Int) (keys : Nat)
    (hkeys : createKeys table page idProcess = some (keys : Int)) (hlt : keys < table.length) :
    ∃ table' borrado, deleteElement table page idProcess = some (table', borrado) ∧
      Borra table (indice (first table.length keys (holds table page idProcess))) table'
        borrado := by
  rw [deleteElement_eq table page idProcess keys hkeys hlt]
  cases hfirst : first table.length keys (holds table page idProcess) with
  | none =>
      refine ⟨table, false, rfl, ⟨?_, ?_, fun _ => rfl⟩⟩
      · simp only [indice, ne_eq, not_true_eq_false, Bool.false_eq_true]
      · exact fun h => absurd h Bool.false_ne_true
  | some i =>
      have hi := (first_lt _ _ _ _ hlt hfirst).1
      refine ⟨table.set i ElementHash.null, true, rfl, ⟨?_, ?_, fun h => absurd h.symm
        Bool.false_ne_true⟩⟩
      · exact iff_of_true rfl (fun h => nomatch (indice_eq _).mp h)
      · intro _
        refine ⟨List.getElem?_set_self hi, ?_⟩
        intro j hj
        exact List.getElem?_set_ne (Ne.symm hj)

/-- Searching for a page and deleting it are exact, whatever the table holds: the key is a
    slot, the search returns the first slot from it on that holds the page, and deleting
    clears that slot alone. -/
theorem elementSearch_exact (table : HashTable) (page idProcess : Int) (hne : 1 ≤ table.length)
    (h : Clave page idProcess) :
    ∃ keys : Nat, createKeys table page idProcess = some (keys : Int) ∧ keys < table.length ∧
      ∃ r, elementSearch table page idProcess = some r ∧ Busca table page idProcess keys r ∧
        ∃ table' borrado, deleteElement table page idProcess = some (table', borrado) ∧
          Borra table r table' borrado := by
  rcases createKeys_lt table page idProcess hne h with ⟨keys, hkeys, hlt⟩
  refine ⟨keys, hkeys, hlt, _, elementSearch_eq table page idProcess keys hkeys hlt, ?_, ?_⟩
  · exact busca_first table page idProcess keys hlt
  · exact borra_first table page idProcess keys hkeys hlt

/-- A table with a hole before the slot that holds the page, from the last slot round. -/
theorem elementSearch_exact_round :
    Clave 23 5 ∧ elementSearch [⟨0, 0⟩, ⟨5, 23⟩, ⟨0, 0⟩, ⟨5, 0⟩] 23 5 = some 1 ∧
      ∃ keys : Nat, createKeys [⟨0, 0⟩, ⟨5, 23⟩, ⟨0, 0⟩, ⟨5, 0⟩] 23 5 = some (keys : Int) ∧
        keys < 4 := by
  have hclave : Clave 23 5 := ⟨by decide, by decide⟩
  rcases elementSearch_exact [⟨0, 0⟩, ⟨5, 23⟩, ⟨0, 0⟩, ⟨5, 0⟩] 23 5 (by decide) hclave with
    ⟨keys, hkeys, hlt, _⟩
  exact ⟨hclave, by decide, keys, hkeys, hlt⟩

end Memoria

end Esther
