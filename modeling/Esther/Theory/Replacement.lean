import Esther.Lib.Recency
import Esther.Theory.Cache

/-!
# The Entry to Be Replaced

Whether the cache replaces the entry that was used least recently.

The list of entries is meant to be in the order of their last use, and `cache_write`
relies on it: the entry it replaces is the first. `cache_read` moves the entry it reads to
the end. `cache_write` does not move the one it writes, neither when it finds the page nor
when it replaces another, so that the entry just written may be the one replaced next.

An entry is written in front of others, and it goes wrong if one of these has still not
been used when the entry is the first and a place is needed.

The entries are told apart by where they were in the list at the beginning.

## Main definitions

* `Acceso`: A call of `cache_write` or `cache_read`.
* `Historia`, `Historia.step`: The cache, and when its entries were last used.
* `writeIndex`: The entry that `cache_write` writes.
* `Replaces`: The call replaces an entry.
* `ReplacesOldest`: It is the one whose last use is the oldest.
* `NadaDetras`: What stood behind the first entry has been used.

## Theorems

* `cacheWrite_eq`: `cache_write` fills one entry or none.
* `vigente_step`: The order of the entries and the order of their uses.
* `replaces_oldest_iff`: The runs in which the least recently used entry is replaced.
* `written_entry_replaced`: The entry just written is replaced.
-/

namespace Esther

namespace Memoria

open Cells Transition

/-- A call of `cache_write` or `cache_read`. -/
inductive Acceso
  | write (pid pageno : Int) (page : Buf)
  | read (pid pageno : Int)

/-- The index of the entry `cache_write` writes, if it writes one. -/
def writeIndex (cache : Cache) (pid pageno : Int) : Option Nat :=
  if !cache.enabled then none
  else match cache.entries.findIdx? fun entry => entry.pid == pid && entry.pageno == pageno with
    | some i => some i
    | none =>
        if ((cache.entries.countP fun entry => entry.pid == pid : Nat) : Int) = cache.mepp then none
        else match cache.entries.findIdx? fun entry => entry.pid == -1 with
          | some i => some i
          | none => some 0

/-- The index of the entry `cache_read` reads, if it finds one. -/
def readIndexOf (cache : Cache) (pid pageno : Int) : Option Nat :=
  if !cache.enabled then none else readIndex pid pageno cache.entries 0 none

/-- The cache, with the order and the times of use of its entries. -/
structure Historia where
  cache : Cache
  uses : Recency.Uses Nat

/-- No entry has been used. -/
def Historia.init (cache : Cache) : Historia :=
  { cache := cache, uses := Recency.Uses.start (List.range cache.entries.length) }

/-- A call, and the use it makes of an entry. -/
def Historia.step (s : Historia) : Acceso → Option Historia
  | .write pid pageno page => (cacheWrite s.cache pid pageno page).map fun r =>
      { cache := r.1
        uses := match writeIndex s.cache pid pageno with
          | some i => s.uses.inPlace i
          | none => s.uses }
  | .read pid pageno => some
      { cache := (cacheRead s.cache pid pageno).1
        uses := match readIndexOf s.cache pid pageno with
          | some i => s.uses.toBack i
          | none => s.uses }

/-- The page is not cached, no entry is empty, and the process has not reached its limit. -/
def Replaces (cache : Cache) (pid pageno : Int) : Prop :=
  cache.enabled = true ∧
  (∀ entry ∈ cache.entries, ¬ (entry.pid = pid ∧ entry.pageno = pageno)) ∧
  (∀ entry ∈ cache.entries, entry.pid ≠ -1) ∧
  ((cache.entries.countP fun entry => entry.pid == pid : Nat) : Int) ≠ cache.mepp

instance (cache : Cache) (pid pageno : Int) : Decidable (Replaces cache pid pageno) := by
  unfold Replaces
  infer_instance

/-- If an entry is replaced, all others have been used since its last use. -/
def ReplacesOldest (s : Historia) : Acceso → Prop
  | .write pid pageno _ => Replaces s.cache pid pageno →
      ∃ i x, writeIndex s.cache pid pageno = some i ∧ s.uses.order[i]? = some x ∧
        ∀ y ∈ s.uses.order, y ≠ x → s.uses.last x < s.uses.last y
  | .read _ _ => True

/-- If an entry is replaced, everything that stood behind the first one when that was last
    used has been used since. -/
def NadaDetras (s : Historia) : Acceso → Prop
  | .write pid pageno _ => Replaces s.cache pid pageno →
      ∀ x ∈ s.uses.order.head?, s.uses.behind x = []
  | .read _ _ => True

/-- `cache_write` fills the entry it has chosen. -/
theorem cacheWrite_eq (cache : Cache) (pid pageno : Int) (page : Buf) :
    cacheWrite cache pid pageno page = match writeIndex cache pid pageno with
      | some i => (fillEntry cache i pid pageno page).map fun cache => (cache, true)
      | none => some (cache, false) := by
  unfold cacheWrite writeIndex
  cases cache.enabled with
  | false => rfl
  | true =>
      simp only [Bool.not_true, Bool.false_eq_true, if_false, List.countP_eq_length_filter]
      cases cache.entries.findIdx? fun entry => entry.pid == pid && entry.pageno == pageno with
      | some i => rfl
      | none =>
          simp only
          by_cases hfull : ((cache.entries.filter fun entry => entry.pid == pid).length : Int)
              = cache.mepp
          · rw [if_pos hfull, if_pos hfull]
          · rw [if_neg hfull, if_neg hfull]
            cases cache.entries.findIdx? fun entry => entry.pid == -1 <;> rfl

/-- A page that is not cached goes to the first entry when none is empty. -/
theorem writeIndex_of_replaces (cache : Cache) (pid pageno : Int)
    (h : Replaces cache pid pageno) : writeIndex cache pid pageno = some 0 := by
  rcases h with ⟨hon, hmiss, hfull, hroom⟩
  have hfind : (cache.entries.findIdx? fun entry => entry.pid == pid && entry.pageno == pageno)
      = none := by
    refine List.findIdx?_eq_none_iff.mpr fun entry hmem => ?_
    rw [Bool.eq_false_iff, Ne, Bool.and_eq_true, beq_iff_eq, beq_iff_eq]
    exact hmiss entry hmem
  have hempty : (cache.entries.findIdx? fun entry => entry.pid == -1) = none :=
    List.findIdx?_eq_none_iff.mpr fun (entry : CacheEntry) hmem =>
      beq_eq_false_iff_ne.mpr (hfull entry hmem)
  simp only [writeIndex, hon, Bool.not_true, Bool.false_eq_true, if_false, hfind, if_neg hroom,
    hempty]

/-- The list of the entries and that of their uses go together, and an entry that is not
    empty has been used. -/
structure Vigente (s : Historia) : Prop where
  sound : s.uses.Sound
  length : s.uses.order.length = s.cache.entries.length
  filled : s.cache.enabled = true → s.cache.entries ≠ []
  used : ∀ (i : Nat) (entry : CacheEntry) (x : Nat), s.cache.entries[i]? = some entry →
    s.uses.order[i]? = some x → entry.pid ≠ -1 → s.uses.last x ≠ 0

theorem vigente_init (block : Buf) (nEntries sEntry maxPerProg : Nat) (cache : Cache)
    (h : cacheCreate block nEntries sEntry maxPerProg = some cache) :
    Vigente (Historia.init cache) := by
  have hblank := create_blank block nEntries sEntry maxPerProg cache h
  refine ⟨Recency.sound_start _ List.nodup_range, List.length_range, fun hon hnil => ?_,
    fun i entry x hentry _ hpid => ?_⟩
  · by_cases hzero : nEntries = 0
    · rw [cacheCreate, if_pos hzero, Option.some.injEq] at h
      rw [← h] at hon
      exact Bool.noConfusion hon
    · have hsize := (create_invariant block nEntries sEntry maxPerProg cache (by omega) h).size
      have hnil : cache.entries = [] := hnil
      rw [hnil] at hsize
      exact hzero hsize.symm
  · exact absurd (hblank entry (List.mem_of_getElem? hentry)).1 hpid

theorem writeIndex_lt (s : Historia) (pid pageno : Int) (i : Nat) (hs : Vigente s)
    (h : writeIndex s.cache pid pageno = some i) : i < s.cache.entries.length := by
  have hfound : ∀ (p : CacheEntry → Bool) (j : Nat), s.cache.entries.findIdx? p = some j →
      j < s.cache.entries.length := fun p j hj =>
    let ⟨hlt, _⟩ := List.findIdx?_eq_some_iff_getElem.mp hj
    hlt
  unfold writeIndex at h
  split at h
  · exact absurd h (by simp only [reduceCtorEq, not_false_eq_true])
  · rename_i hon
    split at h
    · rename_i j hj
      obtain rfl := Option.some.inj h
      exact hfound _ _ hj
    · split at h
      · exact absurd h (by simp only [reduceCtorEq, not_false_eq_true])
      · split at h
        · rename_i j hj
          obtain rfl := Option.some.inj h
          exact hfound _ _ hj
        · -- The first entry, of a list that is not empty.
          obtain rfl := Option.some.inj h
          exact List.length_pos_iff.mpr (hs.filled (by simpa only [Bool.not_eq_true',
            Bool.not_eq_false] using hon))

theorem cacheRead_eq (cache : Cache) (pid pageno : Int) :
    (cacheRead cache pid pageno).1 = match readIndexOf cache pid pageno with
      | some i => match cache.entries[i]? with
        | some entry => { cache with entries := cache.entries.eraseIdx i ++ [entry] }
        | none => cache
      | none => cache := by
  unfold cacheRead readIndexOf
  cases cache.enabled with
  | false => rfl
  | true =>
      simp only [Bool.not_true, Bool.false_eq_true, if_false]
      cases readIndex pid pageno cache.entries 0 none with
      | none => rfl
      | some i =>
          simp only
          cases cache.entries[i]? <;> rfl

theorem readIndexOf_lt (cache : Cache) (pid pageno : Int) (i : Nat)
    (h : readIndexOf cache pid pageno = some i) : i < cache.entries.length := by
  unfold readIndexOf at h
  split at h
  · exact absurd h (by simp only [reduceCtorEq, not_false_eq_true])
  · rcases readIndex_some _ _ _ _ _ _ h with hc | ⟨k, entry, hj, hget, _⟩
    · exact absurd hc (by simp only [reduceCtorEq, not_false_eq_true])
    · rw [hj, Nat.zero_add]
      exact (List.getElem?_eq_some_iff.mp hget).1

/-- An entry is written where it is. It has been used now, and the others have kept their
    labels. -/
theorem vigente_set (s : Historia) (i : Nat) (written : CacheEntry) (content : Buf)
    (hs : Vigente s) (hlt : i < s.cache.entries.length) :
    Vigente { cache := { s.cache with content := content, entries := s.cache.entries.set i written }
              uses := s.uses.inPlace i } := by
  have hx := List.getElem?_eq_getElem (hs.length.symm ▸ hlt : i < s.uses.order.length)
  refine ⟨Recency.sound_inPlace s.uses i hs.sound, ?_, ?_, ?_⟩
  · simp only [Recency.Uses.inPlace, hx, Recency.Uses.mark, List.length_set, hs.length]
  · intro hon hnil
    have hlength := congrArg List.length hnil
    rw [List.length_set, List.length_nil] at hlength
    exact hs.filled hon (List.length_eq_zero_iff.mp hlength)
  · intro j entry x hj hxj hpid
    simp only [Recency.Uses.inPlace, hx] at hxj ⊢
    refine Recency.last_mark_ne_zero s.uses _ x _ ?_
    by_cases hij : i = j
    · rw [← hij] at hxj
      exact Or.inl (Option.some.inj (hxj.symm.trans hx))
    · rw [List.getElem?_set_ne hij] at hj
      exact Or.inr (hs.used j entry x hj hxj hpid)

/-- An entry goes to the end. Both lists move the same index. -/
theorem vigente_toBack (s : Historia) (i : Nat) (entry : CacheEntry) (hs : Vigente s)
    (hentry : s.cache.entries[i]? = some entry) :
    Vigente { cache := { s.cache with entries := s.cache.entries.eraseIdx i ++ [entry] }
              uses := s.uses.toBack i } := by
  have hlt := (List.getElem?_eq_some_iff.mp hentry).1
  have hx := List.getElem?_eq_getElem (hs.length.symm ▸ hlt : i < s.uses.order.length)
  refine ⟨Recency.sound_toBack s.uses i hs.sound, ?_, ?_, ?_⟩
  · simp only [Recency.Uses.toBack, hx, List.length_append, List.length_eraseIdx, hs.length,
      List.length_singleton]
  · intro _ hnil
    exact absurd hnil (List.append_ne_nil_of_right_ne_nil _ (List.cons_ne_nil _ _))
  · intro j other x hj hxj hpid
    simp only [Recency.Uses.toBack, hx] at hxj ⊢
    rw [Recency.getElem?_back _ i j _ hentry] at hj
    rw [Recency.getElem?_back _ i j _ hx, hs.length] at hxj
    exact Recency.last_mark_ne_zero s.uses _ x _ (Or.inr (hs.used _ other x hj hxj hpid))

/-- Every call returns, and the lists go on together. -/
theorem vigente_step (s : Historia) (a : Acceso) (hs : Vigente s) :
    ∃ u, s.step a = some u ∧ Vigente u := by
  cases a with
  | write pid pageno page =>
      rw [Historia.step, cacheWrite_eq]
      cases hi : writeIndex s.cache pid pageno with
      | none => exact ⟨s, rfl, hs⟩
      | some i =>
          have hlt := writeIndex_lt s pid pageno i hs hi
          have hentry := List.getElem?_eq_getElem hlt
          simp only [fillEntry, hentry, Option.map_some, Option.some.injEq, exists_eq_left']
          exact vigente_set s i _ _ hs hlt
  | read pid pageno =>
      refine ⟨_, rfl, ?_⟩
      rw [cacheRead_eq]
      cases hi : readIndexOf s.cache pid pageno with
      | none => exact hs
      | some i =>
          have hentry := List.getElem?_eq_getElem (readIndexOf_lt s.cache pid pageno i hi)
          simp only [hentry]
          exact vigente_toBack s i _ hs hentry

/-- From the state before a call, the entry replaced is the oldest if and only if nothing
    stands behind the first one unused. -/
theorem replacesOldest_iff (s : Historia) (a : Acceso) (hs : Vigente s) :
    ReplacesOldest s a ↔ NadaDetras s a := by
  cases a with
  | read pid pageno => exact Iff.rfl
  | write pid pageno page =>
      refine forall_congr' fun hreplaces => ?_
      rw [writeIndex_of_replaces s.cache pid pageno hreplaces]
      have hne := hs.filled hreplaces.1
      have hne' : s.uses.order ≠ [] := by
        rw [← List.length_pos_iff, hs.length, List.length_pos_iff]
        exact hne
      rcases List.exists_cons_of_ne_nil hne' with ⟨x, rest, horder⟩
      -- No entry is empty, so that all of them have been used.
      have hused : ∀ y ∈ s.uses.order, s.uses.last y ≠ 0 := by
        intro y hy
        rcases List.mem_iff_getElem?.mp hy with ⟨j, hj⟩
        have hlt : j < s.cache.entries.length := by
          rw [← hs.length]
          exact (List.getElem?_eq_some_iff.mp hj).1
        exact hs.used j _ y (List.getElem?_eq_getElem hlt) hj
          (hreplaces.2.2.1 _ (List.getElem_mem hlt))
      have hfirst := Recency.oldest_first_iff s.uses x rest hs.sound horder hused
      rw [horder] at hfirst
      simp only [horder, List.head?_cons, Option.mem_def, Option.some.injEq, forall_eq']
      rw [← hfirst]
      constructor
      · rintro ⟨i, y, rfl, hy, hall⟩
        rw [List.getElem?_cons_zero, Option.some.injEq] at hy
        exact hy ▸ hall
      · exact fun hall => ⟨0, x, rfl, rfl, hall⟩

/-- In every run of calls from a new cache, each entry that is replaced is the one whose last
    use is the oldest of all, if and only if, each time an entry is replaced, everything that
    stood behind the first one when it was last used has been used since. -/
theorem replaces_oldest_iff (block : Buf) (nEntries sEntry maxPerProg : Nat) (cache₀ : Cache)
    (accesos : List Acceso)
    (hcreate : cacheCreate block nEntries sEntry maxPerProg = some cache₀) :
    (∃ t, run Historia.step (Historia.init cache₀) accesos = some t) ∧
    (Along Historia.step ReplacesOldest (Historia.init cache₀) accesos
      ↔ Along Historia.step NadaDetras (Historia.init cache₀) accesos) := by
  have hinit := vigente_init block nEntries sEntry maxPerProg cache₀ hcreate
  rcases run_total Historia.step Vigente vigente_step _ accesos hinit with ⟨t, hrun, _⟩
  refine ⟨⟨t, hrun⟩, along_congr Historia.step NadaDetras ReplacesOldest Vigente
    (fun s a u hs hu => ?_) (fun s a _ hs _ => replacesOldest_iff s a hs) _ t accesos hinit hrun⟩
  rcases vigente_step s a hs with ⟨v, hv, hvigente⟩
  obtain rfl : v = u := Option.some.inj (hv.symm.trans hu)
  exact hvigente

/-- Four pages of a process go through a cache of two entries. -/
def sampleAccesos : List Acceso :=
  [.write 1 0 fun _ => 0, .write 1 1 fun _ => 0, .write 1 2 fun _ => 0, .write 1 3 fun _ => 0]

/-- A cache that is empty. -/
def sampleCache : Cache :=
  { enabled := true, mepp := 4, sEntry := 1, content := fun _ => 0
    entries := [{ pid := -1, pageno := -1, page := 0 }, { pid := -1, pageno := -1, page := 1 }] }

theorem sampleAccesos_oldest_iff :
    (∃ t, run Historia.step (Historia.init sampleCache) sampleAccesos = some t) ∧
    (Along Historia.step ReplacesOldest (Historia.init sampleCache) sampleAccesos
      ↔ Along Historia.step NadaDetras (Historia.init sampleCache) sampleAccesos) :=
  replaces_oldest_iff (fun _ => 0) 2 1 4 sampleCache sampleAccesos rfl

theorem sampleAccesos_taken :
    (run Historia.step (Historia.init sampleCache) (sampleAccesos.take 3)).isSome := by
  decide

/-- The third page has replaced the first, and the fourth replaces the third, though the
    second has been used less recently. -/
theorem written_entry_replaced :
    ¬ ∀ (block : Buf) (nEntries sEntry maxPerProg : Nat) (cache₀ : Cache) (accesos : List Acceso),
      cacheCreate block nEntries sEntry maxPerProg = some cache₀ →
      Along Historia.step ReplacesOldest (Historia.init cache₀) accesos := by
  intro hall
  have halong := hall (fun _ => 0) 2 1 4 sampleCache sampleAccesos rfl
  have hrun := (Option.some_get sampleAccesos_taken).symm
  -- The last of the calls, in the state the others lead to.
  have hlast := (along_append Historia.step ReplacesOldest _ _ (sampleAccesos.take 3)
    (sampleAccesos.drop 3) (by rw [List.take_append_drop]; exact halong) hrun).1
  rcases hlast (by decide) with ⟨i, x, hi, hx, holdest⟩
  rw [show i = 0 from (Option.some.inj (hi.symm.trans (by decide)))] at hx
  rw [show x = 0 from (Option.some.inj (hx.symm.trans (by decide)))] at holdest
  exact absurd (holdest 1 (by decide) (by decide)) (by decide)

end Memoria

end Esther
