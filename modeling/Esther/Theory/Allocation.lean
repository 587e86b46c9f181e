import Esther.Lib.Transition
import Esther.Theory.PageTable

/-!
# Allocation of Pages

What `set_pages` does to the table row by row, and what the table looks like after any
calls.

The free rows may be anywhere between the rows of other processes. `set_pages` counts
them in one loop and hands them out in another, which goes up through the table while
the page numbers go down. The two loops agree: the second one meets its last free row
exactly when there is nothing left to hand out.

A process that is given pages while it has none has the numbers below some bound, each
in one row, as long as it has any. `clear_pages` takes all of them back, so that there
is never a gap.

## Main definitions

* `freeBefore`: How many rows above a row are free.
* `Contiguous`: What is true of the table after any calls.
* `PageTableOp.step`, `AsksFirst`: A call, and a call for a process without pages.

## Theorems

* `assignPages_row`: What becomes of one row.
* `set_pages_exact`: A request is granted in full or not at all.
* `contiguous_step`: Every call keeps the invariant.
* `clearPages_setPages`: Taking pages back undoes giving them.
* `table_contiguous`: The invariant, the frame of a page, and the way back.
-/

namespace Esther

namespace Memoria

open Transition

/-! ### One call -/

/-- How many rows above row `i` are free. -/
def freeBefore (table : PageTable) (i : Nat) : Nat := freeRows (table.take i)

/-- A free row gets the next page number as long as there is one. -/
theorem assignPages_row (pid : Int) (table : PageTable) (n i : Nat) (row : Row)
    (hrow : table[i]? = some row) :
    (assignPages pid table n)[i]? = some (if row.pid = 0 ∧ freeBefore table i < n
      then { pid := pid, page := (n : Int) - 1 - freeBefore table i } else row) := by
  induction table generalizing n i with
  | nil => exact absurd hrow (by simp only [List.getElem?_nil, reduceCtorEq, not_false_eq_true])
  | cons first table ih =>
      cases n with
      | zero => rw [assignPages, hrow, if_neg fun hc => Nat.not_lt_zero _ hc.2]
      | succ n =>
          cases i with
          | zero =>
              obtain rfl := Option.some.inj hrow
              have hnone : freeBefore (first :: table) 0 = 0 := rfl
              rw [assignPages, hnone]
              by_cases hfree : first.pid = 0
              · -- The first free row gets the highest page.
                rw [if_pos (beq_iff_eq.mpr hfree), if_pos ⟨hfree, Nat.succ_pos n⟩,
                  List.getElem?_cons_zero, Option.some.injEq, Row.mk.injEq]
                exact ⟨rfl, by omega⟩
              · rw [if_neg (by rwa [beq_iff_eq]), if_neg fun hc => hfree hc.1]
                rfl
          | succ i =>
              have hbefore : freeBefore (first :: table) (i + 1)
                  = freeBefore table i + if first.pid = 0 then 1 else 0 := by
                rw [freeBefore, List.take_succ_cons, freeRows_cons]
                rfl
              rw [List.getElem?_cons_succ] at hrow
              rw [assignPages, hbefore]
              by_cases hfree : first.pid = 0
              · -- One page number is gone, and one more row above is free.
                rw [if_pos (beq_iff_eq.mpr hfree), if_pos hfree, List.getElem?_cons_succ, ih n i hrow]
                by_cases hgets : row.pid = 0 ∧ freeBefore table i < n
                · rw [if_pos hgets, if_pos ⟨hgets.1, Nat.succ_lt_succ hgets.2⟩, Option.some.injEq,
                    Row.mk.injEq]
                  exact ⟨rfl, by omega⟩
                · rw [if_neg hgets, if_neg fun hc => hgets ⟨hc.1, Nat.lt_of_succ_lt_succ hc.2⟩]
              · rw [if_neg (by rwa [beq_iff_eq]), if_neg hfree, List.getElem?_cons_succ,
                  ih (n + 1) i hrow]
                rfl

theorem setPages_eq_one_iff (table : PageTable) (pid pages : Int) :
    (setPages table pid pages).2 = 1 ↔ 0 < pid ∧ 0 < pages ∧ pages ≤ freeRows table := by
  constructor
  · intro h
    rcases setPages_granted table pid pages (by rw [h]; decide) with ⟨hpid, hpages, hfree, _⟩
    exact ⟨hpid, hpages, hfree⟩
  · rintro ⟨hpid, hpages, hfree⟩
    rw [setPages, if_neg (by omega), if_neg (by omega), if_neg (by omega)]

/-- A request is granted when the process has a number, asks for something, and there are
    free rows enough. Then the first of them are its own, the page numbers going down, and
    the other rows are as they were. Otherwise the table is. -/
theorem set_pages_exact (table : PageTable) (pid pages : Int) :
    ((setPages table pid pages).2 = 1 ↔ 0 < pid ∧ 0 < pages ∧ pages ≤ freeRows table) ∧
    ((setPages table pid pages).2 = 1 →
      (setPages table pid pages).1.length = table.length ∧
      ∀ i row, table[i]? = some row → (setPages table pid pages).1[i]?
        = some (if row.pid = 0 ∧ (freeBefore table i : Int) < pages
          then { pid := pid, page := pages - 1 - freeBefore table i } else row)) ∧
    ((setPages table pid pages).2 ≠ 1 →
      (setPages table pid pages).2 = 0 ∧ (setPages table pid pages).1 = table) := by
  refine ⟨setPages_eq_one_iff table pid pages, fun hone => ?_, fun hno => ?_⟩
  · rcases setPages_granted table pid pages (by rw [hone]; decide) with ⟨_, hpages, _, htable⟩
    refine ⟨setPages_length table pid pages, fun i row hrow => ?_⟩
    have hnat : ((pages.toNat : Nat) : Int) = pages := Int.toNat_of_nonneg (by omega)
    rw [htable, assignPages_row pid table pages.toNat i row hrow, hnat]
    by_cases hgets : row.pid = 0 ∧ freeBefore table i < pages.toNat
    · rw [if_pos hgets, if_pos ⟨hgets.1, by omega⟩]
    · rw [if_neg hgets, if_neg fun hc => hgets ⟨hc.1, by omega⟩]
  · have hzero : (setPages table pid pages).2 = 0 := by
      by_contra hc
      rcases setPages_granted table pid pages hc with ⟨hpid, hpages, hfree, _⟩
      exact hno ((setPages_eq_one_iff table pid pages).mpr ⟨hpid, hpages, hfree⟩)
    exact ⟨hzero, setPages_refused table pid pages hzero⟩

/-! ### Any calls -/

/-- What is true of the table after any calls: a row is free or has an owner, and the pages
    of an owner count down to zero. -/
structure Contiguous (table : PageTable) : Prop where
  rows : ∀ row ∈ table, row = { pid := 0, page := 0 } ∨ (0 < row.pid ∧ 0 ≤ row.page)
  pages : ∀ pid, pid ≠ 0 → ∃ k : Nat, pagesOf table pid = countdown k

/-- A call, as a step. It always returns. -/
def PageTableOp.step (table : PageTable) (op : PageTableOp) : Option PageTable :=
  some (op.apply table)

/-- Pages are asked for by a process that has none. -/
def AsksFirst (table : PageTable) : PageTableOp → Prop
  | .setPages pid _ => 0 < pid → ∀ row ∈ table, row.pid ≠ pid
  | .clearPages _ => True

instance (table : PageTable) (op : PageTableOp) : Decidable (AsksFirst table op) := by
  cases op <;> unfold AsksFirst <;> infer_instance

theorem countdown_nodup (n : Nat) : (countdown n).Nodup := by
  induction n with
  | zero => exact List.nodup_nil
  | succ n ih =>
      refine List.nodup_cons.mpr ⟨fun hmem => ?_, ih⟩
      have hlt := ((mem_countdown n n).mp hmem).2
      omega

/-- Giving frames to one process leaves the pages of the others. -/
theorem pagesOf_assignPages_of_ne (pid q : Int) (hne : q ≠ pid) (hq : q ≠ 0) (table : PageTable)
    (n : Nat) : pagesOf (assignPages pid table n) q = pagesOf table q := by
  induction table generalizing n with
  | nil => rfl
  | cons row table ih =>
      cases n with
      | zero => rfl
      | succ n =>
          rw [assignPages]
          by_cases hfree : row.pid = 0
          · rw [if_pos (beq_iff_eq.mpr hfree), pagesOf_cons, pagesOf_cons,
              if_neg (Ne.symm hne), if_neg (by rw [hfree]; exact Ne.symm hq), ih n]
          · rw [if_neg (by rwa [beq_iff_eq]), pagesOf_cons, pagesOf_cons, ih (n + 1)]

/-- A row that is cleared was the process's. -/
theorem clearPages_cons (row : Row) (table : PageTable) (pid : Int) (hpid : 0 < pid) :
    (clearPages (row :: table) pid).1
      = (if row.pid = pid then { pid := 0, page := 0 } else row) :: (clearPages table pid).1 := by
  have hpos : ¬ pid ≤ 0 := by omega
  rw [clearPages, if_neg hpos, clearPages, if_neg hpos, List.map_cons, List.cons.injEq]
  refine ⟨?_, rfl⟩
  by_cases hrow : row.pid = pid
  · rw [if_pos hrow, if_pos (beq_iff_eq.mpr hrow)]
  · rw [if_neg hrow, if_neg (by rwa [beq_iff_eq])]

/-- Clearing takes the pages of one process. -/
theorem pagesOf_clearPages (table : PageTable) (pid q : Int) (hpid : 0 < pid) (hq : q ≠ 0) :
    pagesOf (clearPages table pid).1 q = if q = pid then [] else pagesOf table q := by
  induction table with
  | nil => rw [clearPages, if_neg (by omega), List.map_nil, pagesOf, List.filterMap_nil, ite_self]
  | cons row table ih =>
      rw [clearPages_cons row table pid hpid, pagesOf_cons, pagesOf_cons, ih]
      by_cases hrow : row.pid = pid
      · rw [if_pos hrow, if_neg (Ne.symm hq), hrow]
        by_cases heq : q = pid
        · rw [if_pos heq, if_pos heq]
        · rw [if_neg heq, if_neg heq, if_neg (Ne.symm heq)]
      · rw [if_neg hrow]
        by_cases heq : q = pid
        · rw [if_pos heq, if_pos heq, heq, if_neg hrow]
        · rw [if_neg heq, if_neg heq]

theorem contiguous_getPageTable (rows : Nat) : Contiguous (getPageTable rows) := by
  refine ⟨fun row hrow => Or.inl (List.eq_of_mem_replicate hrow), fun pid hpid => ⟨0, ?_⟩⟩
  rw [pagesOf, countdown, List.filterMap_eq_nil_iff]
  intro row hrow
  rw [List.eq_of_mem_replicate hrow, if_neg (Ne.symm hpid)]

/-- A process without pages is given the numbers from some bound down to zero, and the
    others keep theirs. -/
theorem contiguous_setPages (table : PageTable) (pid pages : Int) (h : Contiguous table)
    (hasks : AsksFirst table (.setPages pid pages)) :
    Contiguous (setPages table pid pages).1 := by
  by_cases hres : (setPages table pid pages).2 = 0
  · rwa [setPages_refused table pid pages hres]
  · rcases setPages_granted table pid pages hres with ⟨hpid, hpages, hfree, htable⟩
    rw [htable]
    refine ⟨fun row hrow => ?_, fun q hq => ?_⟩
    · rcases mem_assignPages pid table _ row hrow with hold | ⟨hown, hlo, _⟩
      · exact h.rows row hold
      · exact Or.inr ⟨by omega, hlo⟩
    · by_cases heq : q = pid
      · rw [heq]
        refine ⟨pages.toNat, pagesOf_assignPages_self pid table _ (hasks hpid) ?_⟩
        omega
      · rw [pagesOf_assignPages_of_ne pid q heq hq]
        exact h.pages q hq

theorem contiguous_clearPages (table : PageTable) (pid : Int) (h : Contiguous table) :
    Contiguous (clearPages table pid).1 := by
  by_cases hpid : pid ≤ 0
  · rwa [clearPages, if_pos hpid]
  · refine ⟨fun row hrow => ?_, fun q hq => ?_⟩
    · rw [clearPages, if_neg hpid] at hrow
      rcases List.mem_map.mp hrow with ⟨old, hold, heq⟩
      rw [← heq]
      split
      · exact Or.inl rfl
      · exact h.rows old hold
    · rw [pagesOf_clearPages table pid q (by omega) hq]
      by_cases heq : q = pid
      · exact ⟨0, if_pos heq⟩
      · rw [if_neg heq]
        exact h.pages q hq

theorem contiguous_step (table u : PageTable) (op : PageTableOp) (h : Contiguous table)
    (hasks : AsksFirst table op) (hu : PageTableOp.step table op = some u) : Contiguous u := by
  obtain rfl := Option.some.inj hu
  cases op with
  | setPages pid pages => exact contiguous_setPages table pid pages h hasks
  | clearPages pid => exact contiguous_clearPages table pid h

/-- A page is in one row only, the numbers of its process being different. -/
theorem row_unique (table : PageTable) (pid page : Int) (i j : Nat)
    (hnodup : (pagesOf table pid).Nodup) (hi : table[i]? = some { pid := pid, page := page })
    (hj : table[j]? = some { pid := pid, page := page }) : i = j := by
  induction table generalizing i j with
  | nil => exact absurd hi (by simp only [List.getElem?_nil, reduceCtorEq, not_false_eq_true])
  | cons row table ih =>
      -- The first row does not have a page that the rest has.
      have hfirst : row = { pid := pid, page := page } → ∀ k : Nat,
          table[k]? ≠ some { pid := pid, page := page } := by
        intro heq k hk
        rw [heq, pagesOf_cons, if_pos rfl] at hnodup
        exact (List.nodup_cons.mp hnodup).1 ((mem_pagesOf table pid page).mpr ⟨k, hk⟩)
      have htail : (pagesOf table pid).Nodup := by
        rw [pagesOf_cons] at hnodup
        split at hnodup
        · exact (List.nodup_cons.mp hnodup).2
        · exact hnodup
      cases i with
      | zero =>
          cases j with
          | zero => rfl
          | succ j => exact absurd hj (hfirst (Option.some.inj hi) j)
      | succ i =>
          cases j with
          | zero => exact absurd hi (hfirst (Option.some.inj hj) i)
          | succ j => exact congrArg Nat.succ (ih i j htail hi hj)

/-- Clearing undoes assigning, the free rows having been zero. -/
theorem clearPages_assignPages (pid : Int) (hpid : 0 < pid) (table : PageTable) (n : Nat)
    (hfree : ∀ row ∈ table, row.pid = 0 → row = { pid := 0, page := 0 })
    (hnone : ∀ row ∈ table, row.pid ≠ pid) :
    (clearPages (assignPages pid table n) pid).1 = table := by
  induction table generalizing n with
  | nil => rw [assignPages, clearPages, if_neg (by omega), List.map_nil]
  | cons row table ih =>
      have hrow := hnone row List.mem_cons_self
      have htail := fun m => ih m (fun r hr => hfree r (List.mem_cons_of_mem row hr))
        (fun r hr => hnone r (List.mem_cons_of_mem row hr))
      cases n with
      | zero =>
          -- Nothing was given, and the process has no rows to lose.
          have hrest := htail 0
          rw [show assignPages pid table 0 = table by cases table <;> rfl] at hrest
          rw [assignPages, clearPages_cons row table pid hpid, if_neg hrow, hrest]
      | succ n =>
          rw [assignPages]
          by_cases hz : row.pid = 0
          · rw [if_pos (beq_iff_eq.mpr hz), clearPages_cons _ _ pid hpid, if_pos rfl, htail n,
              hfree row List.mem_cons_self hz]
          · rw [if_neg (by rwa [beq_iff_eq]), clearPages_cons _ _ pid hpid, if_neg hrow,
              htail (n + 1)]

theorem clearPages_setPages (table : PageTable) (pid pages : Int) (h : Contiguous table)
    (hasks : AsksFirst table (.setPages pid pages)) :
    (clearPages (setPages table pid pages).1 pid).1 = table := by
  have hfree : ∀ row ∈ table, row.pid = 0 → row = { pid := 0, page := 0 } := by
    intro row hrow hz
    rcases h.rows row hrow with hzero | ⟨hpos, _⟩
    · exact hzero
    · omega
  by_cases hpid : 0 < pid
  · by_cases hres : (setPages table pid pages).2 = 0
    · -- A refused request is one for no pages.
      rw [setPages_refused table pid pages hres]
      have hnothing := clearPages_assignPages pid hpid table 0 hfree (hasks hpid)
      rwa [show assignPages pid table 0 = table by cases table <;> rfl] at hnothing
    · rcases setPages_granted table pid pages hres with ⟨_, _, _, htable⟩
      rw [htable]
      exact clearPages_assignPages pid hpid table _ hfree (hasks hpid)
  · have hneg : pid ≤ 0 := by omega
    rw [setPages, if_pos hneg, clearPages, if_pos hneg]

/-- In every reachable table a row is free or has an owner, the pages of a process are the
    numbers below some bound, each once, each is found in its one row, and pages that are
    given can be taken back. -/
theorem table_contiguous (rows : Nat) (ops : List PageTableOp) (t : PageTable)
    (hasks : Along PageTableOp.step AsksFirst (getPageTable rows) ops)
    (hrun : run PageTableOp.step (getPageTable rows) ops = some t) :
    (∀ row ∈ t, row = { pid := 0, page := 0 } ∨ (0 < row.pid ∧ 0 ≤ row.page)) ∧
    (∀ pid, pid ≠ 0 → ∃ k : Nat,
      (pagesOf t pid).Nodup ∧ (∀ page, page ∈ pagesOf t pid ↔ 0 ≤ page ∧ page < k) ∧
      ∀ page : Int, 0 ≤ page → page < k → ∃ i : Nat, getFrame t pid page = i ∧
        ∀ j : Nat, t[j]? = some { pid := pid, page := page } ↔ j = i) ∧
    (∀ pid pages, (0 < pid → ∀ row ∈ t, row.pid ≠ pid) →
      (clearPages (setPages t pid pages).1 pid).1 = t) := by
  have h : Contiguous t := run_invariant_along PageTableOp.step AsksFirst Contiguous
    (fun s op u hs hop hu => contiguous_step s u op hs hop hu) _ t ops
    (contiguous_getPageTable rows) hasks hrun
  refine ⟨h.rows, fun pid hpid => ?_, fun pid pages hnone => clearPages_setPages t pid pages h hnone⟩
  rcases h.pages pid hpid with ⟨k, hk⟩
  have hnodup : (pagesOf t pid).Nodup := by
    rw [hk]
    exact countdown_nodup k
  have hmem : ∀ page, page ∈ pagesOf t pid ↔ 0 ≤ page ∧ page < k := fun page => by
    rw [hk, mem_countdown]
  refine ⟨k, hnodup, hmem, fun page hlo hhi => ?_⟩
  rcases (mem_pagesOf t pid page).mp ((hmem page).mpr ⟨hlo, hhi⟩) with ⟨i, hi⟩
  have hpos : 0 < pid := by
    rcases h.rows _ (List.mem_of_getElem? hi) with hzero | ⟨hpos, _⟩
    · exact absurd (congrArg Row.pid hzero) hpid
    · exact hpos
  -- There are as many rows of the process as it has pages.
  have hlen : k ≤ t.length := by
    have hle : (pagesOf t pid).length ≤ t.length := List.length_filterMap_le _ _
    have hcount : ∀ n, (countdown n).length = n := fun n => by
      induction n with
      | zero => rfl
      | succ n ih => rw [countdown, List.length_cons, ih]
    rwa [hk, hcount] at hle
  rcases getFrame_of_mapped t pid page i ⟨hpos, hi⟩ hlo (by omega) with ⟨j, hframe, _, hj⟩
  refine ⟨j, hframe, fun m => ⟨fun hm => ?_, fun hm => hm ▸ hj⟩⟩
  exact row_unique t pid page m j hnodup hm hj

/-- Pages of two processes, of which one ends and another begins, between those of the
    first. -/
def sampleTableOps : List PageTableOp :=
  [.setPages 1 2, .setPages 2 1, .clearPages 1, .setPages 3 3]

theorem sampleTable_contiguous : ∃ t,
    run PageTableOp.step (getPageTable 5) sampleTableOps = some t ∧
      ∀ row ∈ t, row = { pid := 0, page := 0 } ∨ (0 < row.pid ∧ 0 ≤ row.page) :=
  ⟨_, rfl, (table_contiguous 5 sampleTableOps _ (by decide) rfl).1⟩

end Memoria

end Esther
