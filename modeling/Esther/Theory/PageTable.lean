import Esther.Core.PageTable

/-!
# The Page Table over Runs

What the operations on the page table do to the rows of one process, and what
every reachable table satisfies.

The lemmas speak of the table through two views. `pagesOf` is the pages of a
process in frame order; after a successful assignment to a process that owned
nothing it is `countdown`, the numbers down to zero, whatever the free frames
were. `marks` is where a page sits, as a list of truth values, one a frame;
`getFrame` depends on the table through it alone, so an operation that leaves
the marks of a page alone leaves its frame alone.

## Main definitions

* `pagesOf`: The pages of a process, in frame order.
* `countdown`: The page numbers of a fresh assignment, in frame order.
* `marks`: Which frames hold a given page.
* `Mapped`: A frame holds a given page.
* `TableOk`: What every reachable table satisfies.

## Theorems

* `pagesOf_assignPages_self`: A fresh process gets its pages counting down.
* `marks_setPages_of_ne`, `marks_clearPages_of_ne`: Other processes keep their
  frames.
* `getFrame_of_mapped`: A mapped page is found, at a frame that holds it.
* `getFrame_congr`: The frame of a page depends on its marks only.
* `tableOk_of_reachable`: The invariant holds in every reachable table.
* `frame_cell_inj`: Cells of different frames are different.
-/

namespace Esther

namespace Memoria

open Cells

/-- The pages a process owns, in frame order. -/
def pagesOf (table : PageTable) (pid : Int) : List Int :=
  table.filterMap fun row => if row.pid = pid then some row.page else none

/-- The numbers below `n`, counting down. -/
def countdown : Nat → List Int
  | 0 => []
  | n + 1 => (n : Int) :: countdown n

/-- Which frames hold the page. -/
def marks (table : PageTable) (pid page : Int) : List Bool :=
  table.map fun row => row.pid == pid && row.page == page

/-- Frame `i` holds the page. Free rows have process zero, which owns
    nothing. -/
def Mapped (table : PageTable) (pid page : Int) (i : Nat) : Prop :=
  0 < pid ∧ table[i]? = some { pid := pid, page := page }

theorem mem_countdown (n : Nat) (x : Int) : x ∈ countdown n ↔ 0 ≤ x ∧ x < n := by
  induction n with
  | zero => simp only [countdown, List.not_mem_nil, false_iff]; omega
  | succ n ih =>
      rw [countdown, List.mem_cons, ih]
      omega

theorem mem_pagesOf (table : PageTable) (pid page : Int) :
    page ∈ pagesOf table pid ↔ ∃ i : Nat, table[i]? = some { pid := pid, page := page } := by
  simp only [pagesOf, List.mem_filterMap, Option.ite_none_right_eq_some, Option.some.injEq]
  constructor
  · intro h
    rcases h with ⟨row, hrow, hpid, hpage⟩
    rcases List.mem_iff_getElem?.mp hrow with ⟨i, hi⟩
    exact ⟨i, by rw [hi, ← hpid, ← hpage]⟩
  · intro h
    rcases h with ⟨i, hi⟩
    exact ⟨_, List.mem_iff_getElem?.mpr ⟨i, hi⟩, rfl, rfl⟩

theorem pagesOf_cons (row : Row) (table : PageTable) (pid : Int) :
    pagesOf (row :: table) pid
      = if row.pid = pid then row.page :: pagesOf table pid else pagesOf table pid := by
  by_cases h : row.pid = pid
  · simp only [pagesOf, List.filterMap_cons, if_pos h]
  · simp only [pagesOf, List.filterMap_cons, if_neg h]

theorem assignPages_length (pid : Int) (table : PageTable) (n : Nat) :
    (assignPages pid table n).length = table.length := by
  induction table generalizing n with
  | nil => rfl
  | cons row table ih =>
      cases n with
      | zero => rfl
      | succ n =>
          rw [assignPages]
          split
          · rw [List.length_cons, List.length_cons, ih]
          · rw [List.length_cons, List.length_cons, ih]

theorem freeRows_cons (row : Row) (table : PageTable) :
    freeRows (row :: table) = freeRows table + if row.pid = 0 then 1 else 0 := by
  simp only [freeRows, List.countP_cons, beq_iff_eq]

theorem freeRows_le_length (table : PageTable) : freeRows table ≤ table.length :=
  List.countP_le_length

/-- A process that owns nothing gets its pages counting down over the free
    frames, provided there are enough. -/
theorem pagesOf_assignPages_self (pid : Int) (table : PageTable) (n : Nat)
    (hnone : ∀ row ∈ table, row.pid ≠ pid) (hfree : n ≤ freeRows table) :
    pagesOf (assignPages pid table n) pid = countdown n := by
  induction table generalizing n with
  | nil =>
      have hn : n = 0 := Nat.le_zero.mp hfree
      subst hn
      rfl
  | cons row table ih =>
      have hrow := hnone row (List.mem_cons_self)
      have htable : ∀ r ∈ table, r.pid ≠ pid := fun r hr => hnone r (List.mem_cons_of_mem row hr)
      rw [freeRows_cons] at hfree
      cases n with
      | zero =>
          -- Nothing left to hand out: the rest of the table is as it was.
          rw [assignPages, countdown, pagesOf, List.filterMap_eq_nil_iff]
          intro r hr
          rw [if_neg (hnone r hr)]
      | succ n =>
          by_cases hz : row.pid = 0
          · rw [if_pos hz] at hfree
            have hrest := ih n htable (by omega)
            rw [assignPages, if_pos (beq_iff_eq.mpr hz), pagesOf_cons, if_pos rfl, hrest, countdown]
          · rw [if_neg hz] at hfree
            have hrest := ih (n + 1) htable (by omega)
            rw [assignPages, if_neg (by rwa [beq_iff_eq]), pagesOf_cons, if_neg hrow, hrest]

/-- Assigning frames to one process leaves the frames of the others alone. -/
theorem marks_assignPages_of_ne (pid q page : Int) (hne : q ≠ pid) (hq : q ≠ 0)
    (table : PageTable) (n : Nat) : marks (assignPages pid table n) q page = marks table q page := by
  induction table generalizing n with
  | nil => rfl
  | cons row table ih =>
      cases n with
      | zero => rfl
      | succ n =>
          rw [assignPages]
          by_cases hz : row.pid = 0
          · -- The row was nobody's and is now the other process's.
            have hold : (row.pid == q) = false := beq_eq_false_iff_ne.mpr (by omega)
            have hnew : (pid == q) = false := beq_eq_false_iff_ne.mpr (Ne.symm hne)
            rw [if_pos (beq_iff_eq.mpr hz), marks, marks, List.map_cons, List.map_cons, hold, hnew]
            exact congrArg (List.cons false) (ih n)
          · rw [if_neg (by rwa [beq_iff_eq]), marks, marks, List.map_cons, List.map_cons]
            exact congrArg (List.cons _) (ih (n + 1))

theorem marks_setPages_of_ne (pid q page pages : Int) (hne : q ≠ pid) (hq : q ≠ 0)
    (table : PageTable) : marks (setPages table pid pages).1 q page = marks table q page := by
  rw [setPages]
  split
  · rfl
  · split
    · rfl
    · split
      · rfl
      · exact marks_assignPages_of_ne pid q page hne hq table _

theorem marks_clearPages_of_ne (pid q page : Int) (hne : q ≠ pid) (hq : q ≠ 0)
    (table : PageTable) : marks (clearPages table pid).1 q page = marks table q page := by
  rw [clearPages]
  split
  · rfl
  · rw [marks, marks, List.map_map]
    refine List.map_congr_left fun row _ => ?_
    simp only [Function.comp]
    by_cases hrow : row.pid = pid
    · have hold : (row.pid == q) = false := beq_eq_false_iff_ne.mpr (by omega)
      have hzero : ((0 : Int) == q) = false := beq_eq_false_iff_ne.mpr (Ne.symm hq)
      rw [if_pos (beq_iff_eq.mpr hrow), hold, hzero]
      rfl
    · rw [if_neg (by rwa [beq_iff_eq])]

/-- After clearing, the process owns nothing. -/
theorem clearPages_none (table : PageTable) (pid : Int) (hpos : 0 < pid) :
    ∀ row ∈ (clearPages table pid).1, row.pid ≠ pid := by
  rw [clearPages, if_neg (by omega)]
  intro row hrow
  rcases List.mem_map.mp hrow with ⟨old, _, hold⟩
  rw [← hold]
  split
  · show (0 : Int) ≠ pid
    omega
  · rename_i hne
    rwa [beq_iff_eq] at hne

theorem getFrame_congr (table table' : PageTable) (pid page : Int)
    (h : marks table' pid page = marks table pid page) :
    getFrame table' pid page = getFrame table pid page := by
  have hlen : table'.length = table.length := by
    have hl := congrArg List.length h
    simpa only [marks, List.length_map] using hl
  have hfind : ∀ t : PageTable, (t.findIdx? fun row => row.pid == pid && row.page == page)
      = (marks t pid page).findIdx? id := by
    intro t
    rw [marks, List.findIdx?_map]
    rfl
  rw [getFrame, getFrame, hlen, hfind table', hfind table, h]

/-- A mapped page is found, at a frame that holds it. -/
theorem getFrame_of_mapped (table : PageTable) (pid page : Int) (i : Nat)
    (h : Mapped table pid page i) (hlo : 0 ≤ page) (hhi : page < table.length) :
    ∃ j : Nat, getFrame table pid page = j ∧ Mapped table pid page j := by
  rcases h with ⟨hpos, hi⟩
  rcases hfind : table.findIdx? fun row => row.pid == pid && row.page == page with _ | j
  · have hnone := List.findIdx?_eq_none_iff.mp hfind _ (List.mem_of_getElem? hi)
    simp only [beq_self_eq_true, Bool.and_self, Bool.true_eq_false] at hnone
  · rcases List.findIdx?_eq_some_iff_getElem.mp hfind with ⟨hj, hmatch, _⟩
    refine ⟨j, ?_, hpos, ?_⟩
    · rw [getFrame, if_neg (by omega), if_neg (by omega), if_neg (by omega), hfind]
    · rw [List.getElem?_eq_getElem hj]
      simp only [Bool.and_eq_true, beq_iff_eq] at hmatch
      rw [Option.some.injEq]
      exact Row.mk.injEq .. ▸ ⟨hmatch.1, hmatch.2⟩

/-- A page nobody holds is reported as frame zero. -/
theorem getFrame_of_not_mapped (table : PageTable) (pid page : Int)
    (h : ¬ ∃ i, Mapped table pid page i) : getFrame table pid page = 0 := by
  rw [getFrame]
  split
  · rfl
  · split
    · rfl
    · split
      · rfl
      · rename_i hpid _ _
        rcases hfind : table.findIdx? fun row => row.pid == pid && row.page == page with _ | j
        · rw [hfind]
        · rcases List.findIdx?_eq_some_iff_getElem.mp hfind with ⟨hj, hmatch, _⟩
          simp only [Bool.and_eq_true, beq_iff_eq] at hmatch
          -- A row that is found is a mapping of the page.
          refine absurd ⟨j, by omega, ?_⟩ h
          rw [List.getElem?_eq_getElem hj, Option.some.injEq]
          exact Row.mk.injEq .. ▸ ⟨hmatch.1, hmatch.2⟩

/-- Every row is free or belongs to a process with a positive number, and then
    its page number is one the table is large enough for. -/
def TableOk (table : PageTable) : Prop :=
  ∀ row ∈ table, row.pid = 0 ∨ (0 < row.pid ∧ 0 ≤ row.page ∧ row.page < table.length)

/-- A row after an assignment is an old one, or a new one of the process. -/
theorem mem_assignPages (pid : Int) (table : PageTable) (n : Nat) (row : Row)
    (h : row ∈ assignPages pid table n) :
    row ∈ table ∨ (row.pid = pid ∧ 0 ≤ row.page ∧ row.page < n) := by
  induction table generalizing n with
  | nil => exact absurd h (List.not_mem_nil)
  | cons old table ih =>
      cases n with
      | zero => exact Or.inl h
      | succ n =>
          rw [assignPages] at h
          split at h
          · -- A free row is given the highest of the pages left.
            rcases List.mem_cons.mp h with hnew | htail
            · right
              rw [hnew]
              exact ⟨rfl, by simp only; omega, by simp only; omega⟩
            · rcases ih n htail with hold | ⟨hpid, hlo, hhi⟩
              · exact Or.inl (List.mem_cons_of_mem old hold)
              · exact Or.inr ⟨hpid, hlo, by omega⟩
          · -- A row in use is passed over.
            rcases List.mem_cons.mp h with hsame | htail
            · exact Or.inl (List.mem_cons.mpr (Or.inl hsame))
            · rcases ih (n + 1) htail with hold | hnew
              · exact Or.inl (List.mem_cons_of_mem old hold)
              · exact Or.inr hnew

theorem setPages_length (table : PageTable) (pid pages : Int) :
    (setPages table pid pages).1.length = table.length := by
  rw [setPages]
  split
  · rfl
  · split
    · rfl
    · split
      · rfl
      · exact assignPages_length pid table _

theorem clearPages_length (table : PageTable) (pid : Int) :
    (clearPages table pid).1.length = table.length := by
  rw [clearPages]
  split
  · rfl
  · exact List.length_map _

theorem tableOk_setPages (table : PageTable) (pid pages : Int) (h : TableOk table) :
    TableOk (setPages table pid pages).1 := by
  intro row hrow
  rw [setPages_length]
  rw [setPages] at hrow
  split at hrow
  · exact h row hrow
  · split at hrow
    · exact h row hrow
    · split at hrow
      · exact h row hrow
      · rename_i hpid hpages hfree
        rcases mem_assignPages pid table _ row hrow with hold | ⟨hp, hlo, hhi⟩
        · exact h row hold
        · -- The page number is below the number of free rows.
          have hle := freeRows_le_length table
          exact Or.inr ⟨by omega, hlo, by omega⟩

theorem tableOk_clearPages (table : PageTable) (pid : Int) (h : TableOk table) :
    TableOk (clearPages table pid).1 := by
  intro row hrow
  rw [clearPages_length]
  rw [clearPages] at hrow
  split at hrow
  · exact h row hrow
  · rcases List.mem_map.mp hrow with ⟨old, hold, heq⟩
    rw [← heq]
    split
    · exact Or.inl rfl
    · exact h old hold

/-- The invariant holds in every reachable table, by induction on the calls. -/
theorem tableOk_of_reachable (table : PageTable) (h : ReachableTable table) : TableOk table := by
  rcases h with ⟨rows, ops, heq⟩
  -- A new table has free rows only.
  have hinit : TableOk (getPageTable rows) := by
    intro row hrow
    rw [List.eq_of_mem_replicate hrow]
    exact Or.inl rfl
  have hall : ∀ (ops : List PageTableOp) (t : PageTable), TableOk t →
      TableOk (List.foldl PageTableOp.apply t ops) := by
    intro ops
    induction ops with
    | nil => exact fun t ht => ht
    | cons op ops ih =>
        intro t ht
        rw [List.foldl_cons]
        refine ih _ ?_
        cases op with
        | setPages pid pages => exact tableOk_setPages t pid pages ht
        | clearPages pid => exact tableOk_clearPages t pid ht
  rw [heq]
  exact hall ops _ hinit

/-- The page of a mapped row is within the bounds `getFrame` checks. -/
theorem mapped_bounds (table : PageTable) (h : TableOk table) (pid page : Int) (i : Nat)
    (hm : Mapped table pid page i) : 0 ≤ page ∧ page < table.length := by
  rcases hm with ⟨hpos, hi⟩
  rcases h _ (List.mem_of_getElem? hi) with hzero | ⟨_, hlo, hhi⟩
  · exact absurd hzero (by simp only; omega)
  · exact ⟨hlo, hhi⟩

/-- The frame of a cell is its address divided by the frame size. -/
theorem frame_of_cell (marcoSize : Int) (i offset : Int) (hlo : 0 ≤ offset)
    (hhi : offset < marcoSize) : (i * marcoSize + offset) / marcoSize = i := by
  rw [Int.add_comm, Int.add_mul_ediv_right _ _ (by omega), Int.ediv_eq_zero_of_lt hlo hhi,
    Int.zero_add]

/-- Cells of different frames are different. -/
theorem frame_cell_inj (marcoSize : Int) (i j o o' : Int) (ho : 0 ≤ o ∧ o < marcoSize)
    (ho' : 0 ≤ o' ∧ o' < marcoSize) (h : i * marcoSize + o = j * marcoSize + o') : i = j := by
  rw [← frame_of_cell marcoSize i o ho.1 ho.2, h, frame_of_cell marcoSize j o' ho'.1 ho'.2]

/-- Different pages are in different frames. -/
theorem mapped_inj (table : PageTable) (pid page pid' page' : Int) (i : Nat)
    (h : Mapped table pid page i) (h' : Mapped table pid' page' i) :
    pid = pid' ∧ page = page' := by
  have heq := h.2.symm.trans h'.2
  rw [Option.some.injEq, Row.mk.injEq] at heq
  exact heq

/-- A grant: the requested number of pages, and enough free frames for it. -/
theorem setPages_granted (table : PageTable) (pid pages : Int)
    (h : (setPages table pid pages).2 ≠ 0) :
    0 < pid ∧ 0 < pages ∧ pages ≤ freeRows table
      ∧ (setPages table pid pages).1 = assignPages pid table pages.toNat := by
  simp only [setPages] at h ⊢
  split at h
  · exact absurd rfl h
  · split at h
    · exact absurd rfl h
    · split at h
      · exact absurd rfl h
      · rename_i hpid hpages hfree
        rw [if_neg hpid, if_neg hpages, if_neg hfree]
        exact ⟨by omega, by omega, by omega, rfl⟩

/-- A refusal changes nothing. -/
theorem setPages_refused (table : PageTable) (pid pages : Int)
    (h : (setPages table pid pages).2 = 0) : (setPages table pid pages).1 = table := by
  simp only [setPages] at h ⊢
  split at h
  · rw [if_pos (by assumption)]
  · split at h
    · rw [if_neg (by assumption), if_pos (by assumption)]
    · split at h
      · rw [if_neg (by assumption), if_neg (by assumption), if_pos (by assumption)]
      · exact absurd h Int.one_ne_zero

end Memoria

end Esther
