import Esther.Core.Cache
import Esther.Lib.Slots
import Esther.Lib.Transition

/-!
# The Entries of the Cache

What is true of the cache after any calls.

The list of entries is labelled slots: an entry has a key if its process is one, and
then the key is the process and the page number. `cacheWrite` relabels one entry and
`cacheRead` moves one to the end, whichever entry they choose, and this is all that the
invariant needs to know about them.

## Main definitions

* `entryKey`: The key of an entry.
* `CacheInvariant`: What is true of a cache after any calls.

## Theorems

* `cacheWrite_cases`, `cacheRead_cases`: What the functions do.
* `step_invariant`: Every call keeps the invariant.
* `cache_invariant`: The invariant, the order of the entries and a refused page.
-/

namespace Esther

namespace Memoria

open Cells Slots Transition

/-- The process and the page number of an entry that is not empty. -/
def entryKey (entry : CacheEntry) : Option (Int × Int) :=
  if 0 ≤ entry.pid then some (entry.pid, entry.pageno) else none

theorem entryKey_eq_some (entry : CacheEntry) (pid pageno : Int) (hpid : 0 ≤ pid) :
    entryKey entry = some (pid, pageno) ↔ entry.pid = pid ∧ entry.pageno = pageno := by
  unfold entryKey
  by_cases h : 0 ≤ entry.pid
  · rw [if_pos h, Option.some.injEq, Prod.mk.injEq]
  · rw [if_neg h]
    constructor
    · intro hc
      exact absurd hc (by simp only [reduceCtorEq, not_false_eq_true])
    · rintro ⟨hp, _⟩
      omega

/-- The entries of a process, counted by their keys or as `cache_write` does. -/
theorem load_entryKey (entries : List CacheEntry) (pid : Int) (hpid : 0 ≤ pid) :
    load entryKey Prod.fst pid entries = entries.countP fun entry => entry.pid == pid := by
  refine List.countP_congr fun entry _ => ?_
  unfold entryKey
  by_cases h : 0 ≤ entry.pid
  · rw [if_pos h]
    simp only [Option.map_some, Option.some.injEq, decide_eq_true_eq, beq_iff_eq]
  · rw [if_neg h]
    simp only [Option.map_none, reduceCtorEq, decide_false, Bool.false_eq_true, beq_iff_eq,
      false_iff]
    omega

/-- What is true of a cache of `nEntries` entries after any calls. -/
structure CacheInvariant (nEntries sEntry maxPerProg : Nat) (cache : Cache) : Prop where
  enabled : cache.enabled = true
  mepp : cache.mepp = toInt maxPerProg
  entry : cache.sEntry = sEntry
  fits : nEntries < 2 ^ 31
  size : cache.entries.length = nEntries
  pages : (cache.entries.map CacheEntry.page).Perm (slots nEntries sEntry)
  blank : ∀ entry ∈ cache.entries, 0 ≤ entry.pid ∨ entry.pid = -1 ∧ entry.pageno = -1
  distinct : Distinct entryKey cache.entries
  quota : ∀ pid, 0 ≤ pid → (cache.entries.countP fun entry => entry.pid == pid) ≤ maxPerProg

/-- Two slots are the same or have no byte in common. -/
theorem slots_apart (nEntries sEntry : Nat) :
    (slots nEntries sEntry).Pairwise fun p q : Int => p + sEntry ≤ q ∨ q + sEntry ≤ p := by
  unfold slots
  rw [List.pairwise_map]
  refine List.pairwise_lt_range.imp fun {i j} hij => .inl ?_
  have hmul : (i + 1) * sEntry ≤ j * sEntry := Nat.mul_le_mul_right sEntry hij
  rw [Nat.succ_mul] at hmul
  omega

/-- The slots of a list of entries have no byte in common. -/
theorem pages_apart (entries : List CacheEntry) (nEntries sEntry : Nat)
    (h : (entries.map CacheEntry.page).Perm (slots nEntries sEntry)) :
    (entries.map CacheEntry.page).Pairwise fun p q : Int => p + sEntry ≤ q ∨ q + sEntry ≤ p :=
  (slots_apart nEntries sEntry).perm h.symm fun h => h.symm

/-! ### What the functions do -/

/-- What `cacheWrite` does: a page over the limit is refused, and otherwise one entry is
    filled, which is the page's own if it has one. -/
theorem cacheWrite_cases (cache cache' : Cache) (pid pageno : Int) (page : Buf) (result : Bool)
    (hon : cache.enabled = true) (h : cacheWrite cache pid pageno page = some (cache', result)) :
    (result = false ∧ cache' = cache ∧
        (∀ entry ∈ cache.entries, ¬ (entry.pid = pid ∧ entry.pageno = pageno))) ∨
    (result = true ∧ ∃ i, fillEntry cache i pid pageno page = some cache' ∧
      ((∃ entry, cache.entries[i]? = some entry ∧ entry.pid = pid ∧ entry.pageno = pageno) ∨
        (∀ entry ∈ cache.entries, ¬ (entry.pid = pid ∧ entry.pageno = pageno)) ∧
          ((cache.entries.countP fun entry => entry.pid == pid : Nat) : Int) ≠ cache.mepp)) := by
  unfold cacheWrite at h
  rw [hon, Bool.not_true, if_neg Bool.false_ne_true] at h
  cases hfind : cache.entries.findIdx? fun entry => entry.pid == pid && entry.pageno == pageno with
  | some i =>
      simp only [hfind, Option.map_eq_some_iff, Prod.mk.injEq] at h
      rcases h with ⟨filled, hfill, rfl, rfl⟩
      rcases List.findIdx?_eq_some_iff_getElem.mp hfind with ⟨hi, hmatch, _⟩
      rw [Bool.and_eq_true, beq_iff_eq, beq_iff_eq] at hmatch
      exact .inr ⟨rfl, i, hfill, .inl ⟨_, List.getElem?_eq_getElem hi, hmatch⟩⟩
  | none =>
      have hno : ∀ entry ∈ cache.entries, ¬ (entry.pid = pid ∧ entry.pageno = pageno) := by
        intro entry hmem
        have hfalse := List.findIdx?_eq_none_iff.mp hfind entry hmem
        rintro ⟨hp, hn⟩
        rw [hp, hn, beq_self_eq_true, beq_self_eq_true] at hfalse
        exact Bool.noConfusion hfalse
      simp only [hfind] at h
      rw [← List.countP_eq_length_filter] at h
      by_cases hfull : ((cache.entries.countP fun entry => entry.pid == pid : Nat) : Int)
          = cache.mepp
      · rw [if_pos hfull, Option.some.injEq, Prod.mk.injEq] at h
        exact .inl ⟨h.2.symm, h.1.symm, hno⟩
      · rw [if_neg hfull] at h
        -- An empty entry or the first one: which it is makes no difference here.
        cases hempty : cache.entries.findIdx? fun entry => entry.pid == -1 with
        | some i =>
            simp only [hempty, Option.map_eq_some_iff, Prod.mk.injEq] at h
            rcases h with ⟨filled, hfill, rfl, rfl⟩
            exact .inr ⟨rfl, i, hfill, .inr ⟨hno, hfull⟩⟩
        | none =>
            simp only [hempty, Option.map_eq_some_iff, Prod.mk.injEq] at h
            rcases h with ⟨filled, hfill, rfl, rfl⟩
            exact .inr ⟨rfl, 0, hfill, .inr ⟨hno, hfull⟩⟩

/-- An index that the iterator returns is the one before or that of an entry it matches. -/
theorem readIndex_some (pid pageno : Int) (entries : List CacheEntry) (i j : Nat)
    (index : Option Nat) (h : readIndex pid pageno entries i index = some j) :
    index = some j ∨ ∃ k entry, j = i + k ∧ entries[k]? = some entry ∧ entry.pid = pid ∧
      entry.pageno = pageno := by
  induction entries generalizing i index with
  | nil => exact .inl h
  | cons entry entries ih =>
      rcases ih (i + 1) _ h with hhere | ⟨k, other, hj, hget, hmatch⟩
      · by_cases hm : (entry.pid == pid && entry.pageno == pageno) = true
        · rw [if_pos hm, Option.some.injEq] at hhere
          rw [Bool.and_eq_true, beq_iff_eq, beq_iff_eq] at hm
          exact .inr ⟨0, entry, hhere.symm, rfl, hm⟩
        · rw [if_neg hm] at hhere
          exact .inl hhere
      · exact .inr ⟨k + 1, other, by omega, hget, hmatch⟩

/-- The iterator returns no index when there was none and no entry matches. -/
theorem readIndex_none (pid pageno : Int) (entries : List CacheEntry) (i : Nat)
    (index : Option Nat) :
    readIndex pid pageno entries i index = none ↔
      index = none ∧ ∀ entry ∈ entries, ¬ (entry.pid = pid ∧ entry.pageno = pageno) := by
  induction entries generalizing i index with
  | nil => simp only [readIndex, List.not_mem_nil, false_implies, implies_true, and_true]
  | cons entry entries ih =>
      rw [readIndex, ih, List.forall_mem_cons]
      by_cases hm : (entry.pid == pid && entry.pageno == pageno) = true
      · rw [if_pos hm]
        rw [Bool.and_eq_true, beq_iff_eq, beq_iff_eq] at hm
        simp only [reduceCtorEq, false_and, hm, and_self, not_true_eq_false, and_false]
      · rw [if_neg hm]
        rw [Bool.and_eq_true, beq_iff_eq, beq_iff_eq] at hm
        simp only [hm, not_false_eq_true, true_and]

/-- What `cacheRead` does: nothing if no entry matches, and otherwise one that does is
    moved to the end. -/
theorem cacheRead_cases (cache : Cache) (pid pageno : Int) (hon : cache.enabled = true) :
    (cacheRead cache pid pageno = (cache, none) ∧
        ∀ entry ∈ cache.entries, ¬ (entry.pid = pid ∧ entry.pageno = pageno)) ∨
    ∃ i entry, cache.entries[i]? = some entry ∧ entry.pid = pid ∧ entry.pageno = pageno ∧
      cacheRead cache pid pageno =
        ({ cache with entries := cache.entries.eraseIdx i ++ [entry] }, some entry.page) := by
  unfold cacheRead
  rw [hon, Bool.not_true, if_neg Bool.false_ne_true]
  cases hidx : readIndex pid pageno cache.entries 0 none with
  | none => exact .inl ⟨rfl, ((readIndex_none _ _ _ _ _).mp hidx).2⟩
  | some j =>
      rcases readIndex_some _ _ _ _ _ _ hidx with hc | ⟨k, entry, hj, hget, hp, hn⟩
      · exact absurd hc (by simp only [reduceCtorEq, not_false_eq_true])
      · rw [Nat.zero_add] at hj
        subst hj
        simp only [hget]
        exact .inr ⟨j, entry, hget, hp, hn, rfl⟩

/-! ### The invariant -/

theorem entryKey_of_empty (entry : CacheEntry) (h : entry.pid = -1 ∧ entry.pageno = -1) :
    entryKey entry = none := by
  rw [entryKey, if_neg (by rw [h.1]; omega)]

/-- Empty entries have no keys to share. -/
theorem distinct_of_empty (entries : List CacheEntry)
    (h : ∀ entry ∈ entries, entry.pid = -1 ∧ entry.pageno = -1) : Distinct entryKey entries :=
  distinct_of_blank _ _ fun entry hmem => entryKey_of_empty entry (h entry hmem)

/-- Empty entries belong to no process. -/
theorem countP_of_empty (entries : List CacheEntry)
    (h : ∀ entry ∈ entries, entry.pid = -1 ∧ entry.pageno = -1) (pid : Int) (hpid : 0 ≤ pid) :
    (entries.countP fun entry => entry.pid == pid) = 0 := by
  refine List.countP_eq_zero.mpr fun entry hmem => ?_
  rw [(h entry hmem).1, beq_iff_eq]
  omega

/-- At first every entry is empty. -/
theorem create_blank (block : Buf) (nEntries sEntry maxPerProg : Nat) (cache : Cache)
    (h : cacheCreate block nEntries sEntry maxPerProg = some cache) :
    ∀ entry ∈ cache.entries, entry.pid = -1 ∧ entry.pageno = -1 := by
  intro entry hmem
  unfold cacheCreate at h
  by_cases hzero : nEntries = 0
  · rw [if_pos hzero, Option.some.injEq] at h
    rw [← h] at hmem
    exact absurd hmem List.not_mem_nil
  rw [if_neg hzero] at h
  by_cases hbig : 2 ^ 31 ≤ nEntries
  · rw [if_pos hbig] at h
    exact absurd h (by simp only [reduceCtorEq, not_false_eq_true])
  rw [if_neg hbig, Option.some.injEq] at h
  rw [← h] at hmem
  rcases List.mem_map.mp hmem with ⟨page, _, rfl⟩
  exact ⟨rfl, rfl⟩

theorem create_invariant (block : Buf) (nEntries sEntry maxPerProg : Nat) (cache : Cache)
    (hn : 1 ≤ nEntries) (h : cacheCreate block nEntries sEntry maxPerProg = some cache) :
    CacheInvariant nEntries sEntry maxPerProg cache := by
  have hempty := create_blank block nEntries sEntry maxPerProg cache h
  unfold cacheCreate at h
  rw [if_neg (by omega)] at h
  by_cases hbig : 2 ^ 31 ≤ nEntries
  · rw [if_pos hbig] at h
    exact absurd h (by simp only [reduceCtorEq, not_false_eq_true])
  rw [if_neg hbig, Option.some.injEq] at h
  subst h
  refine ⟨rfl, by simp only, rfl, by omega, ?_, ?_, fun entry hmem => .inr (hempty entry hmem),
    distinct_of_empty _ hempty, fun pid hpid => ?_⟩
  · simp only [slots, List.length_map, List.length_range]
  · -- The slots are handed out in order, one to each entry.
    simp only [List.map_map, Function.comp_def, List.map_id', List.Perm.refl]
  · rw [countP_of_empty _ hempty pid hpid]
    exact Nat.zero_le _

/-- The order of the entries is not part of the invariant. -/
theorem reorder_invariant (nEntries sEntry maxPerProg : Nat) (cache : Cache)
    (entries : List CacheEntry) (h : CacheInvariant nEntries sEntry maxPerProg cache)
    (hperm : entries.Perm cache.entries) :
    CacheInvariant nEntries sEntry maxPerProg { cache with entries := entries } where
  enabled := h.enabled
  mepp := h.mepp
  entry := h.entry
  fits := h.fits
  size := hperm.length_eq.trans h.size
  pages := (hperm.map _).trans h.pages
  blank := fun entry hmem => h.blank entry (hperm.mem_iff.mp hmem)
  distinct := distinct_perm _ _ _ hperm.symm h.distinct
  quota := fun pid hpid => by
    rw [hperm.countP_eq]
    exact h.quota pid hpid

/-- Filling an entry takes one out and puts one in that differs in the label. -/
theorem fillEntry_perm (cache filled : Cache) (i : Nat) (pid pageno : Int) (page : Buf)
    (h : fillEntry cache i pid pageno page = some filled) :
    ∃ entry rest, cache.entries[i]? = some entry ∧ cache.entries.Perm (entry :: rest) ∧
      filled.entries.Perm ({ entry with pid := pid, pageno := pageno } :: rest) ∧
      filled = { cache with
        content := copy cache.content page entry.page 0 cache.sEntry
        entries := filled.entries } := by
  unfold fillEntry at h
  cases hget : cache.entries[i]? with
  | none =>
      rw [hget] at h
      exact absurd h (by simp only [reduceCtorEq, not_false_eq_true])
  | some entry =>
      simp only [hget, Option.some.injEq] at h
      -- Setting the entry replaces it by itself under its new label.
      rcases set_perm cache.entries i entry { entry with pid := pid, pageno := pageno } hget with
        ⟨rest, hold, hnew⟩
      subst h
      exact ⟨entry, rest, rfl, hold, hnew, rfl⟩

/-- A process below its limit may have one entry more. -/
theorem quota_room (nEntries sEntry maxPerProg : Nat) (cache : Cache) (pid : Int)
    (h : CacheInvariant nEntries sEntry maxPerProg cache) (hpid : 0 ≤ pid)
    (hne : ((cache.entries.countP fun entry => entry.pid == pid : Nat) : Int) ≠ cache.mepp) :
    (cache.entries.countP fun entry => entry.pid == pid) < maxPerProg ∨ nEntries ≤ maxPerProg := by
  by_cases hbig : maxPerProg < 2 ^ 31
  · rw [h.mepp, toInt_of_lt _ (by omega) (by omega)] at hne
    have := h.quota pid hpid
    exact .inl (by omega)
  · -- The limit is above the number of entries, and what `mepp` has become does not matter.
    have := h.fits
    exact .inr (by omega)

/-- Filling the page's own entry, or another one when the page has none and the process
    is below its limit. -/
theorem fill_invariant (nEntries sEntry maxPerProg : Nat) (cache filled : Cache) (i : Nat)
    (pid : Nat) (pageno : Int) (page : Buf) (h : CacheInvariant nEntries sEntry maxPerProg cache)
    (hfill : fillEntry cache i pid pageno page = some filled)
    (hroom : (∃ entry, cache.entries[i]? = some entry ∧ entry.pid = pid ∧ entry.pageno = pageno) ∨
      (∀ entry ∈ cache.entries, ¬ (entry.pid = pid ∧ entry.pageno = pageno)) ∧
        ((cache.entries.countP fun entry => entry.pid == (pid : Int) : Nat) : Int) ≠ cache.mepp) :
    CacheInvariant nEntries sEntry maxPerProg filled := by
  rcases fillEntry_perm cache filled i pid pageno page hfill with
    ⟨entry, rest, hget, hold, hnew, hfilled⟩
  have hpid : (0 : Int) ≤ pid := Int.natCast_nonneg pid
  have hkey' : entryKey { entry with pid := pid, pageno := pageno } = some ((pid : Int), pageno) :=
    (entryKey_eq_some _ _ _ hpid).mpr ⟨rfl, rfl⟩
  have hlength : filled.entries.length = nEntries := by
    rw [hnew.length_eq, List.length_cons, ← h.size, hold.length_eq, List.length_cons]
  rw [hfilled]
  refine ⟨h.enabled, h.mepp, h.entry, h.fits, hlength, ?_, ?_, ?_, ?_⟩
  · -- The entry has kept its slot.
    exact ((hnew.map _).trans (hold.map CacheEntry.page).symm).trans h.pages
  · intro other hmem
    rcases List.mem_cons.mp (hnew.mem_iff.mp hmem) with rfl | hrest
    · exact .inl hpid
    · exact h.blank other (hold.mem_iff.mpr (List.mem_cons_of_mem _ hrest))
  · refine distinct_perm _ _ _ hnew.symm
      (distinct_refill _ entry _ rest _ (distinct_perm _ _ _ hold h.distinct) hkey' ?_)
    rcases hroom with ⟨found, hfound, hmatch⟩ | ⟨hno, _⟩
    · obtain rfl : entry = found := Option.some.inj (hget.symm.trans hfound)
      exact .inl ((entryKey_eq_some _ _ _ hpid).mpr hmatch)
    · refine .inr fun other hother hkey => ?_
      exact hno other (hold.mem_iff.mpr (List.mem_cons_of_mem _ hother))
        ((entryKey_eq_some _ _ _ hpid).mp hkey)
  · intro q hq
    -- Without room below the limit the limit is no less than the number of entries.
    by_cases hmany : nEntries ≤ maxPerProg
    · exact (List.countP_le_length.trans (Nat.le_of_eq hlength)).trans hmany
    rw [← load_entryKey _ _ hq, load_perm _ _ _ _ hnew]
    refine load_refill _ _ entry _ rest _ _ _ ?_ hkey' ?_
    · rw [← load_perm _ _ _ _ hold, load_entryKey _ _ hq]
      exact h.quota q hq
    · rcases hroom with ⟨found, hfound, hmatch⟩ | ⟨_, hne⟩
      · obtain rfl : entry = found := Option.some.inj (hget.symm.trans hfound)
        exact .inl ((entryKey_eq_some _ _ _ hpid).mpr hmatch)
      · rw [← load_perm _ _ _ _ hold, load_entryKey _ _ hpid]
        exact .inr ((quota_room _ _ _ _ _ h hpid hne).resolve_right hmany)

theorem write_invariant (nEntries sEntry maxPerProg : Nat) (cache cache' : Cache) (pid : Nat)
    (pageno : Int) (page : Buf) (result : Bool)
    (h : CacheInvariant nEntries sEntry maxPerProg cache)
    (hwrite : cacheWrite cache pid pageno page = some (cache', result)) :
    CacheInvariant nEntries sEntry maxPerProg cache' := by
  rcases cacheWrite_cases _ _ _ _ _ _ h.enabled hwrite with ⟨_, rfl, _⟩ | ⟨_, i, hfill, hroom⟩
  · exact h
  · exact fill_invariant _ _ _ _ _ _ _ _ _ h hfill hroom

/-- Reading changes the order of the entries only. -/
theorem cacheRead_perm (cache : Cache) (pid pageno : Int) (hon : cache.enabled = true) :
    ∃ entries, entries.Perm cache.entries ∧
      (cacheRead cache pid pageno).1 = { cache with entries := entries } := by
  rcases cacheRead_cases cache pid pageno hon with ⟨hread, _⟩ | ⟨i, entry, hget, _, _, hread⟩
  · exact ⟨cache.entries, List.Perm.refl _, congrArg Prod.fst hread⟩
  · exact ⟨_, back_perm cache.entries i entry hget, congrArg Prod.fst hread⟩

theorem read_invariant (nEntries sEntry maxPerProg : Nat) (cache : Cache) (pid pageno : Int)
    (h : CacheInvariant nEntries sEntry maxPerProg cache) :
    CacheInvariant nEntries sEntry maxPerProg (cacheRead cache pid pageno).1 := by
  rcases cacheRead_perm cache pid pageno h.enabled with ⟨entries, hperm, hread⟩
  rw [hread]
  exact reorder_invariant _ _ _ _ _ h hperm

/-- After a flush every entry is empty. -/
theorem cacheFlush_blank (cache : Cache) (hon : cache.enabled = true) :
    ∀ entry ∈ (cacheFlush cache).entries, entry.pid = -1 ∧ entry.pageno = -1 := by
  intro entry hmem
  rw [cacheFlush, hon, Bool.not_true, if_neg Bool.false_ne_true] at hmem
  rcases List.mem_map.mp hmem with ⟨other, _, rfl⟩
  exact ⟨rfl, rfl⟩

theorem flush_invariant (nEntries sEntry maxPerProg : Nat) (cache : Cache)
    (h : CacheInvariant nEntries sEntry maxPerProg cache) :
    CacheInvariant nEntries sEntry maxPerProg (cacheFlush cache) := by
  have hblank := cacheFlush_blank cache h.enabled
  have hflush : cacheFlush cache = { cache with
      entries := cache.entries.map fun entry => { entry with pid := -1, pageno := -1 } } := by
    rw [cacheFlush, h.enabled, Bool.not_true, if_neg Bool.false_ne_true]
  rw [hflush] at hblank ⊢
  refine ⟨h.enabled, h.mepp, h.entry, h.fits, ?_, ?_, fun entry hmem => .inr (hblank entry hmem),
    distinct_of_empty _ hblank, fun pid hpid => ?_⟩
  · rw [List.length_map, h.size]
  · rw [List.map_map]
    exact h.pages
  · rw [countP_of_empty _ hblank pid hpid]
    exact Nat.zero_le _

/-- A cache with entries always has one to fill. -/
theorem cacheWrite_defined (nEntries sEntry maxPerProg : Nat) (cache : Cache) (pid pageno : Int)
    (page : Buf) (hn : 1 ≤ nEntries) (h : CacheInvariant nEntries sEntry maxPerProg cache) :
    ∃ cache' result, cacheWrite cache pid pageno page = some (cache', result) := by
  have hfill : ∀ i, i < cache.entries.length →
      ∃ filled, fillEntry cache i pid pageno page = some filled := by
    intro i hi
    simp only [fillEntry, List.getElem?_eq_getElem hi, Option.some.injEq, exists_eq']
  -- An index that a search has found is one of an entry.
  have hfound : ∀ (p : CacheEntry → Bool) (i : Nat), cache.entries.findIdx? p = some i →
      ∃ filled, fillEntry cache i pid pageno page = some filled := by
    intro p i hfind
    rcases List.findIdx?_eq_some_iff_getElem.mp hfind with ⟨hi, _⟩
    exact hfill i hi
  unfold cacheWrite
  rw [h.enabled, Bool.not_true, if_neg Bool.false_ne_true]
  cases hfind : cache.entries.findIdx? fun entry => entry.pid == pid && entry.pageno == pageno with
  | some i =>
      rcases hfound _ i hfind with ⟨filled, hfilled⟩
      exact ⟨filled, true, by simp only [hfilled, Option.map_some]⟩
  | none =>
      simp only
      by_cases hfull : ((cache.entries.filter fun entry => entry.pid == pid).length : Int)
          = cache.mepp
      · rw [if_pos hfull]
        exact ⟨cache, false, rfl⟩
      rw [if_neg hfull]
      cases hempty : cache.entries.findIdx? fun entry => entry.pid == -1 with
      | some i =>
          rcases hfound _ i hempty with ⟨filled, hfilled⟩
          exact ⟨filled, true, by simp only [hfilled, Option.map_some]⟩
      | none =>
          -- There is a first entry, since there is one at all.
          rcases hfill 0 (by rw [h.size]; omega) with ⟨filled, hfilled⟩
          exact ⟨filled, true, by simp only [hfilled, Option.map_some]⟩

/-- Every call is defined and keeps the invariant. -/
theorem step_invariant (nEntries sEntry maxPerProg : Nat) (cache : Cache) (op : CacheOp)
    (hn : 1 ≤ nEntries) (h : CacheInvariant nEntries sEntry maxPerProg cache) :
    ∃ cache', op.step cache = some cache' ∧ CacheInvariant nEntries sEntry maxPerProg cache' := by
  cases op with
  | write pid pageno page =>
      rcases cacheWrite_defined _ _ _ cache pid pageno page hn h with ⟨cache', result, hwrite⟩
      refine ⟨cache', ?_, write_invariant _ _ _ _ _ _ _ _ _ h hwrite⟩
      rw [CacheOp.step, hwrite, Option.map_some]
  | read pid pageno => exact ⟨_, rfl, read_invariant _ _ _ _ _ _ h⟩
  | flush => exact ⟨_, rfl, flush_invariant _ _ _ _ h⟩

/-- The calls of a run are all defined, and the invariant holds after them. -/
theorem run_cacheInvariant (nEntries sEntry maxPerProg : Nat) (cache : Cache) (ops : List CacheOp)
    (hn : 1 ≤ nEntries) (h : CacheInvariant nEntries sEntry maxPerProg cache) :
    ∃ cache', run CacheOp.step cache ops = some cache' ∧
      CacheInvariant nEntries sEntry maxPerProg cache' :=
  run_total CacheOp.step (CacheInvariant nEntries sEntry maxPerProg)
    (fun cache op h => step_invariant _ _ _ cache op hn h) cache ops h

/-- After any calls there are as many entries as there are slots, each with a slot of its
    own; no two are for the same page of a process, and no process has more than its limit.
    Reading a page changes the order of the entries only, and a page that is refused
    changes nothing. -/
theorem cache_invariant (block : Buf) (nEntries sEntry maxPerProg : Nat) (cache₀ : Cache)
    (ops : List CacheOp) (hn : 1 ≤ nEntries)
    (hcreate : cacheCreate block nEntries sEntry maxPerProg = some cache₀) :
    ∃ cache, run CacheOp.step cache₀ ops = some cache ∧
      cache.entries.length = nEntries ∧
      (cache.entries.map CacheEntry.page).Perm (slots nEntries sEntry) ∧
      (0 < sEntry → (cache.entries.map CacheEntry.page).Nodup) ∧
      (cache.entries.Pairwise fun e e' =>
        0 ≤ e.pid → ¬ (e.pid = e'.pid ∧ e.pageno = e'.pageno)) ∧
      (∀ pid, 0 ≤ pid → (cache.entries.countP fun entry => entry.pid == pid) ≤ maxPerProg) ∧
      (∀ pid pageno, ∃ entries, entries.Perm cache.entries ∧
        (cacheRead cache pid pageno).1 = { cache with entries := entries }) ∧
      (∀ (pid : Nat) pageno page cache',
        cacheWrite cache pid pageno page = some (cache', false) → cache' = cache) := by
  have hinv₀ := create_invariant block nEntries sEntry maxPerProg cache₀ hn hcreate
  rcases run_cacheInvariant _ _ _ cache₀ ops hn hinv₀ with ⟨cache, hrun, h⟩
  refine ⟨cache, hrun, h.size, h.pages, ?_, ?_, h.quota,
    fun pid pageno => cacheRead_perm cache pid pageno h.enabled, ?_⟩
  · intro hpos
    refine (pages_apart cache.entries _ _ h.pages).imp fun {p q} hapart => ?_
    omega
  · -- Keys that are distinct as a list are distinct entry by entry.
    refine (List.pairwise_filterMap.mp h.distinct).imp fun {e e'} hne hpos hsame => ?_
    refine hne (e.pid, e.pageno) ((entryKey_eq_some _ _ _ hpos).mpr ⟨rfl, rfl⟩)
      (e.pid, e.pageno) ((entryKey_eq_some _ _ _ hpos).mpr ⟨hsame.1.symm, hsame.2.symm⟩) rfl
  · intro pid pageno page cache' hwrite
    rcases cacheWrite_cases _ _ _ _ _ _ h.enabled hwrite with ⟨_, hsame, _⟩ | ⟨hc, _⟩
    · exact hsame
    · exact Bool.noConfusion hc

/-- Two entries, one page each, and a process that may have one of them. -/
theorem cache_invariant_two : ∃ cache₀ cache, cacheCreate (fun _ => 0) 2 4 1 = some cache₀ ∧
    run CacheOp.step cache₀ [.write 7 0 fun _ => 3, .read 7 0, .write 7 1 fun _ => 5, .flush]
      = some cache ∧ cache.entries.length = 2 := by
  rcases cache_invariant (fun _ => 0) 2 4 1 _
    [.write 7 0 fun _ => 3, .read 7 0, .write 7 1 fun _ => 5, .flush] (by decide) rfl with
    ⟨cache, hrun, hsize, _⟩
  exact ⟨_, cache, rfl, hrun, hsize⟩

end Memoria

end Esther
