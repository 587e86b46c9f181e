import Esther.Theory.Cache

/-!
# The Cache is Coherent

A page that the cache returns is the page that was written.

Beside the calls a record is kept of what was last written for each process and page
number, which a flush empties and an eviction does not. The slots are coherent with the
record when each of them holds what was last written for the key of its entry. Keeping
them so takes the two halves of the invariant: slots that have no byte in common, so that
filling one leaves what the others hold, and keys that are distinct, so that no slot
stays behind with what was written before.

The key of an empty entry is none, but its label is a process and a page number all the
same, and a read that asks for it finds the entry.

## Main definitions

* `Recorded`, `Recorded.step`: A cache, with what was last written for each key since the
  cache was flushed.
* `Served`: A page is read as it was last written.
* `SlotsCoherent`: The slots hold what was last written.

## Theorems

* `fill_coherent`: A page is stored.
* `step_coherent`: Every call keeps the slots coherent.
* `served_of_coherent`: What is read was written.
* `cacheRead_empty`: The exception, the label of an empty entry.
* `cache_coherent`: The cache after any calls.
-/

namespace Esther

namespace Memoria

open Cells Slots Transition

/-- A cache, with what was last written for each key since the cache was flushed. -/
structure Recorded where
  cache : Cache
  written : Int × Int → Option (List UInt8)

/-- A call, and the record kept of it: a page that is stored is what was last written. -/
def Recorded.step (s : Recorded) : CacheOp → Option Recorded
  | .write pid pageno page =>
      (cacheWrite s.cache pid pageno page).map fun (cache, result) =>
        { cache := cache
          written := if result then
              Function.update s.written ((pid : Int), pageno) (some (slice page 0 s.cache.sEntry))
            else s.written }
  | .read pid pageno => some { s with cache := (cacheRead s.cache pid pageno).1 }
  | .flush => some { cache := cacheFlush s.cache, written := fun _ => none }

/-- If `cacheRead` returns a page it is the one last written. -/
def Served (s : Recorded) (pid pageno : Int) : Prop :=
  ∀ page, (cacheRead s.cache pid pageno).2 = some page →
    s.written (pid, pageno) =
      some (slice (cacheRead s.cache pid pageno).1.content page s.cache.sEntry)

/-- Empty entries hold nothing that was written. -/
theorem coherent_of_empty (entries : List CacheEntry) (value : CacheEntry → List UInt8)
    (written : Int × Int → Option (List UInt8))
    (h : ∀ entry ∈ entries, entry.pid = -1 ∧ entry.pageno = -1) :
    Coherent entryKey value written entries := by
  intro entry hmem k hk
  rw [entryKey_of_empty entry (h entry hmem)] at hk
  exact absurd hk (by simp only [reduceCtorEq, not_false_eq_true])

/-- What is in the slot of an entry. -/
def held (cache : Cache) (entry : CacheEntry) : List UInt8 :=
  slice cache.content entry.page cache.sEntry

/-- The slots hold what was last written for the keys of their entries. -/
def SlotsCoherent (s : Recorded) : Prop :=
  Coherent entryKey (held s.cache) s.written s.cache.entries

/-- Copying a page into one slot leaves the others alone. -/
theorem held_copy (nEntries : Nat) (cache filled : Cache) (entry other : CacheEntry)
    (rest : List CacheEntry) (page : Buf)
    (hpages : (cache.entries.map CacheEntry.page).Perm (slots nEntries cache.sEntry))
    (hold : cache.entries.Perm (entry :: rest)) (hother : other ∈ rest)
    (hcontent : filled.content = copy cache.content page entry.page 0 cache.sEntry)
    (hsize : filled.sEntry = cache.sEntry) : held filled other = held cache other := by
  -- The slots are those of `cache_create`, in some order, and these lie apart.
  have hapart := pages_apart (entry :: rest) nEntries cache.sEntry
    ((hold.map CacheEntry.page).symm.trans hpages)
  rw [List.map_cons, List.pairwise_cons] at hapart
  have hother := hapart.1 other.page (List.mem_map_of_mem hother)
  unfold held
  rw [hsize]
  refine slice_congr _ _ _ _ _ fun k hk => ?_
  rw [hcontent, copy_apply, if_neg (by omega)]

/-- A page that is stored is coherent with the record of it. -/
theorem fill_coherent (nEntries sEntry maxPerProg : Nat) (s : Recorded) (filled : Cache) (i : Nat)
    (pid : Nat) (pageno : Int) (page : Buf)
    (hinv : CacheInvariant nEntries sEntry maxPerProg s.cache) (hco : SlotsCoherent s)
    (hfill : fillEntry s.cache i pid pageno page = some filled)
    (hinv' : CacheInvariant nEntries sEntry maxPerProg filled) :
    SlotsCoherent { cache := filled
                    written := Function.update s.written ((pid : Int), pageno)
                      (some (slice page 0 s.cache.sEntry)) } := by
  rcases fillEntry_perm s.cache filled i pid pageno page hfill with
    ⟨entry, rest, _, hold, hnew, hfilled⟩
  have hcontent : filled.content = copy s.cache.content page entry.page 0 s.cache.sEntry := by
    rw [hfilled]
  have hsize : filled.sEntry = s.cache.sEntry := hinv'.entry.trans hinv.entry.symm
  have hkey' : entryKey { entry with pid := pid, pageno := pageno } = some ((pid : Int), pageno) :=
    (entryKey_eq_some _ _ _ (Int.natCast_nonneg pid)).mpr ⟨rfl, rfl⟩
  have hself : held filled { entry with pid := pid, pageno := pageno }
      = slice page 0 s.cache.sEntry := by
    unfold held
    rw [hcontent, hsize, slice_copy_self]
  -- The other entries keep their content, since their slots are apart from the one filled.
  have hrest := coherent_refill entryKey (held s.cache) (held filled) s.written entry
    { entry with pid := pid, pageno := pageno } rest ((pid : Int), pageno)
    (coherent_perm _ _ _ _ _ hold hco) hkey'
    (distinct_fresh _ _ rest _ (distinct_perm _ _ _ hnew hinv'.distinct) hkey')
    fun other hother =>
      held_copy nEntries s.cache filled entry other rest page (hinv.entry ▸ hinv.pages) hold
        hother hcontent hsize
  rw [hself] at hrest
  exact coherent_perm _ _ _ _ _ hnew.symm hrest

/-- Every call keeps the slots coherent. -/
theorem step_coherent (nEntries sEntry maxPerProg : Nat) (s s' : Recorded) (op : CacheOp)
    (hinv : CacheInvariant nEntries sEntry maxPerProg s.cache) (hco : SlotsCoherent s)
    (hstep : s.step op = some s') :
    CacheInvariant nEntries sEntry maxPerProg s'.cache ∧ SlotsCoherent s' := by
  cases op with
  | write pid pageno page =>
      rcases Option.map_eq_some_iff.mp hstep with ⟨⟨cache', result⟩, hwrite, rfl⟩
      have hinv' := write_invariant _ _ _ _ _ _ _ _ _ hinv hwrite
      refine ⟨hinv', ?_⟩
      rcases cacheWrite_cases _ _ _ _ _ _ hinv.enabled hwrite with
        ⟨rfl, rfl, _⟩ | ⟨rfl, i, hfill, _⟩
      · exact hco
      · exact fill_coherent _ _ _ s cache' i pid pageno page hinv hco hfill hinv'
  | read pid pageno =>
      obtain rfl : _ = s' := Option.some.inj hstep
      refine ⟨read_invariant _ _ _ _ _ _ hinv, ?_⟩
      rcases cacheRead_perm s.cache pid pageno hinv.enabled with ⟨entries, hperm, hread⟩
      unfold SlotsCoherent
      simp only [hread]
      exact coherent_perm _ _ _ _ _ hperm.symm hco
  | flush =>
      obtain rfl : _ = s' := Option.some.inj hstep
      exact ⟨flush_invariant _ _ _ _ hinv,
        coherent_of_empty _ _ _ (cacheFlush_blank s.cache hinv.enabled)⟩

/-- The record is kept beside the calls: the cache does not depend on it. -/
theorem recorded_run (s : Recorded) (ops : List CacheOp) :
    (run Recorded.step s ops).map Recorded.cache = run CacheOp.step s.cache ops := by
  -- The record is written beside the cache, which does not depend on it.
  have hstep : ∀ (s : Recorded) (op : CacheOp),
      (s.step op).map Recorded.cache = op.step s.cache := by
    intro s op
    cases op with
    | write pid pageno page =>
        simp only [Recorded.step, CacheOp.step, Option.map_map, Function.comp_def]
    | read pid pageno => rfl
    | flush => rfl
  induction ops generalizing s with
  | nil => rfl
  | cons op ops ih =>
      rw [run, run, ← hstep]
      cases s.step op with
      | none => rfl
      | some s' => exact ih s'

/-- What is read is what was last written, for every label but that of the empty entries. -/
theorem served_of_coherent (nEntries sEntry maxPerProg : Nat) (s : Recorded) (pid pageno : Int)
    (hinv : CacheInvariant nEntries sEntry maxPerProg s.cache) (hco : SlotsCoherent s)
    (hlabel : ¬ (pid = -1 ∧ pageno = -1)) : Served s pid pageno := by
  intro page hpage
  rcases cacheRead_cases s.cache pid pageno hinv.enabled with
    ⟨hread, _⟩ | ⟨i, entry, hget, hp, hn, hread⟩
  · rw [hread] at hpage
    exact absurd hpage (by simp only [reduceCtorEq, not_false_eq_true])
  · rw [hread] at hpage ⊢
    obtain rfl : entry.page = page := Option.some.inj hpage
    have hmem : entry ∈ s.cache.entries := List.mem_of_getElem? hget
    have hpid : 0 ≤ entry.pid := by
      rcases hinv.blank entry hmem with hpid | hempty
      · exact hpid
      · exact absurd (hp ▸ hn ▸ hempty) hlabel
    exact hco entry hmem _ ((entryKey_eq_some entry pid pageno (hp ▸ hpid)).mpr ⟨hp, hn⟩)

/-- A page that was stored is found. -/
theorem cacheRead_of_written (nEntries sEntry maxPerProg : Nat) (s : Recorded) (cache' : Cache)
    (pid : Nat) (pageno : Int) (page : Buf)
    (hinv : CacheInvariant nEntries sEntry maxPerProg s.cache) (hco : SlotsCoherent s)
    (hwrite : cacheWrite s.cache pid pageno page = some (cache', true)) :
    ∃ p, (cacheRead cache' pid pageno).2 = some p ∧
      slice (cacheRead cache' pid pageno).1.content p sEntry = slice page 0 sEntry := by
  have hstep : s.step (.write pid pageno page) = some
      { cache := cache'
        written := Function.update s.written ((pid : Int), pageno)
          (some (slice page 0 s.cache.sEntry)) } := by
    simp only [Recorded.step, hwrite, Option.map_some, if_true]
  rcases step_coherent _ _ _ _ _ _ hinv hco hstep with ⟨hinv', hco'⟩
  have hserved := served_of_coherent _ _ _ _ (pid : Int) pageno hinv' hco' (by omega)
  rcases cacheRead_cases cache' pid pageno hinv'.enabled with
    ⟨_, hno⟩ | ⟨i, entry, _, _, _, hread⟩
  · -- The entry that was filled is still there.
    rcases cacheWrite_cases _ _ _ _ _ _ hinv.enabled hwrite with ⟨hc, _⟩ | ⟨_, j, hfill, _⟩
    · exact Bool.noConfusion hc
    rcases fillEntry_perm _ _ _ _ _ _ hfill with ⟨entry, rest, _, _, hnew, _⟩
    exact absurd ⟨rfl, rfl⟩ (hno _ (hnew.mem_iff.mpr List.mem_cons_self))
  · have hfound : (cacheRead cache' pid pageno).2 = some entry.page := congrArg Prod.snd hread
    refine ⟨entry.page, hfound, ?_⟩
    -- What is found is what was recorded, the page just written.
    have heq := hserved entry.page hfound
    simp only [Function.update_self, Option.some.injEq] at heq
    rw [← hinv.entry, heq, hinv.entry, hinv'.entry]

/-- The label of an empty entry is found before anything is written for it. -/
theorem cacheRead_empty : ∃ cache₀, cacheCreate (fun _ => 0) 1 1 1 = some cache₀ ∧
    ¬ Served { cache := cache₀, written := fun _ => none } (-1) (-1) := by
  refine ⟨_, rfl, fun h => ?_⟩
  exact absurd (h 0 rfl) (by simp only [reduceCtorEq, not_false_eq_true])

/-- After any calls the cache returns what was last written, for every label but that of the
    empty entries. A page that was stored is there to be read, and one that was refused is
    not there at all. -/
theorem cache_coherent (block : Buf) (nEntries sEntry maxPerProg : Nat) (cache₀ : Cache)
    (ops : List CacheOp) (hn : 1 ≤ nEntries)
    (hcreate : cacheCreate block nEntries sEntry maxPerProg = some cache₀) :
    ∃ s, run Recorded.step { cache := cache₀, written := fun _ => none } ops = some s ∧
      run CacheOp.step cache₀ ops = some s.cache ∧
      (∀ pid pageno, ¬ (pid = -1 ∧ pageno = -1) → Served s pid pageno) ∧
      (∀ (pid : Nat) pageno page cache',
        cacheWrite s.cache pid pageno page = some (cache', true) →
        ∃ p, (cacheRead cache' pid pageno).2 = some p ∧
          slice (cacheRead cache' pid pageno).1.content p sEntry = slice page 0 sEntry) ∧
      (∀ (pid : Nat) pageno page cache',
        cacheWrite s.cache pid pageno page = some (cache', false) →
        (cacheRead cache' pid pageno).2 = none) := by
  have hinv₀ := create_invariant block nEntries sEntry maxPerProg cache₀ hn hcreate
  have hco₀ : SlotsCoherent { cache := cache₀, written := fun _ => none } :=
    coherent_of_empty _ _ _ (create_blank block nEntries sEntry maxPerProg cache₀ hcreate)
  rcases run_cacheInvariant _ _ _ cache₀ ops hn hinv₀ with ⟨cache, hrun, _⟩
  have hboth := recorded_run { cache := cache₀, written := fun _ => none } ops
  rw [hrun, Option.map_eq_some_iff] at hboth
  rcases hboth with ⟨s, hrec, rfl⟩
  -- Both invariants together, over the calls with their record.
  have hs := run_invariant Recorded.step
    (fun s => CacheInvariant nEntries sEntry maxPerProg s.cache ∧ SlotsCoherent s)
    (fun s op s' hs hstep => step_coherent _ _ _ s s' op hs.1 hs.2 hstep) _ _ ops
    ⟨hinv₀, hco₀⟩ hrec
  refine ⟨s, hrec, hrun, fun pid pageno => served_of_coherent _ _ _ s pid pageno hs.1 hs.2,
    fun pid pageno page cache' => cacheRead_of_written _ _ _ s cache' pid pageno page hs.1 hs.2,
    ?_⟩
  intro pid pageno page cache' hwrite
  rcases cacheWrite_cases _ _ _ _ _ _ hs.1.enabled hwrite with ⟨_, hsame, hno⟩ | ⟨hc, _⟩
  · rw [hsame]
    rcases cacheRead_cases s.cache pid pageno hs.1.enabled with
      ⟨hread, _⟩ | ⟨i, entry, hget, hp, hpn, _⟩
    · exact congrArg Prod.snd hread
    -- The page was refused because the process has no entry for it.
    · exact absurd ⟨hp, hpn⟩ (hno entry (List.mem_of_getElem? hget))
  · exact Bool.noConfusion hc

/-- A page of a process that may have one entry is stored, read back, and keeps a second
    one out. -/
theorem cache_coherent_two : ∃ cache₀ s, cacheCreate (fun _ => 0) 2 4 1 = some cache₀ ∧
    run Recorded.step { cache := cache₀, written := fun _ => none }
      [.write 7 0 fun _ => 3, .read 7 0, .write 7 1 fun _ => 5] = some s ∧ Served s 7 0 := by
  rcases cache_coherent (fun _ => 0) 2 4 1 _
    [.write 7 0 fun _ => 3, .read 7 0, .write 7 1 fun _ => 5] (by decide) rfl with
    ⟨s, hrun, _, hserved, _⟩
  exact ⟨_, s, rfl, hrun, hserved 7 0 (by decide)⟩

end Memoria

end Esther
