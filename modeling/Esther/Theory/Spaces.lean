import Esther.Lib.Transition
import Esther.Theory.Requests

/-!
# Private Address Spaces

The memory server as its clients want to see it: one private array of pages for
each process, of which the others know nothing.

A `Space` knows no frames. `Twin` runs the server and the spaces side by side
on the same operations, each by its own definition, and the invariant relates
them: a process has a space exactly if it owns frames, the pages of the space
are the pages the table lists for it, and every byte of a page is the byte of
the frame the table puts the page in. What a fresh space starts with is not
determined by the operations, since frames are handed out as they are; it is
taken from the frames right after they are assigned.

The frames of a process are scattered over main memory and its pages count down
while the frames count up. None of that is used. All the invariant needs is that
different pages are in different frames, which holds because a row of the table
describes one frame and names one page.

## Main definitions

* `Space`, `Spaces`: A process's pages, and those of all processes.
* `Op`: The operations of a run.
* `Twin`, `Twin.step`: The server and the spaces, run together.
* `Op.Valid`: The operations the clients may perform.
* `Twin.Agrees`: The server and the spaces hold the same bytes.

## Theorems

* `agrees_step`: Every operation keeps the two in agreement.
* `server_refines_spaces`: In every run, what a process reads is what its space
  holds, and no operation of another process changes it.
-/

namespace Esther

namespace Memoria

open Cells Transition

/-- The private memory of a process: its pages, and the bytes of each. -/
structure Space where
  pages : Nat
  cell : Int → Buf

/-- The bytes of a page from an offset on. -/
def Space.read (space : Space) (page offset : Int) (size : Nat) : List UInt8 :=
  slice (space.cell page) offset size

/-- Replace bytes of a page from an offset on. -/
def Space.write (space : Space) (page offset : Int) (bytes : List UInt8) : Space :=
  { space with
    cell := Function.update space.cell page (Cells.write (space.cell page) offset bytes) }

/-- The private memories of the processes that have one. -/
abbrev Spaces := Int → Option Space

/-- An operation of a run. A store comes with the payload it was sent and with
    what lies behind it. -/
inductive Op
  | setPages (pid pages : Int)
  | clearPages (pid : Int)
  | setBytes (pid page offset size : Int) (payload : List UInt8) (heap : Buf)
  | getBytes (pid page offset size : Int)

/-- The process an operation is performed by. -/
def Op.pid : Op → Int
  | .setPages pid _ => pid
  | .clearPages pid => pid
  | .setBytes pid _ _ _ _ _ => pid
  | .getBytes pid _ _ _ => pid

/-- `get_bytes` through `get_frame`, into some buffer. -/
def readBytes (server : ServerState) (data : Buf) (pid page offset size : Int) : List UInt8 :=
  slice (getBytes server.marcoSize server.main (getFrame server.pageTable pid page) offset size
    data).1 0 size.toNat

/-- `set_bytes` through `get_frame`. -/
def storeBytes (server : ServerState) (pid page offset size : Int) (data : Buf) : ServerState :=
  { server with
    main := (setBytes server.marcoSize server.main (getFrame server.pageTable pid page) offset size
      data).1 }

/-- The frame the table puts a page in, by offset. -/
def frameContents (server : ServerState) (pid page : Int) : Buf :=
  fun offset => server.main (getFrame server.pageTable pid page * server.marcoSize + offset)

/-- The server and the spaces. -/
structure Twin where
  server : ServerState
  spaces : Spaces

/-- The server at start-up; no process has a space. -/
def Twin.init (marcoSize : Int) (marcos : Nat) (main : Buf) : Twin :=
  { server := { marcoSize := marcoSize, pageTable := getPageTable marcos, main := main },
    spaces := fun _ => none }

/-- One operation on both sides. The server decides whether pages are granted. -/
def Twin.apply (t : Twin) : Op → Twin
  | .setPages pid pages =>
      let r := setPages t.server.pageTable pid pages
      let server := { t.server with pageTable := r.1 }
      { server := server,
        spaces := if r.2 = 0 then t.spaces
          else Function.update t.spaces pid
            (some { pages := pages.toNat, cell := frameContents server pid }) }
  | .clearPages pid =>
      let r := clearPages t.server.pageTable pid
      { server := { t.server with pageTable := r.1 },
        spaces := if r.2 = 0 then t.spaces else Function.update t.spaces pid none }
  | .setBytes pid page offset size payload heap =>
      { server := storeBytes t.server pid page offset size (Cells.write heap 0 payload),
        spaces := Function.update t.spaces pid
          ((t.spaces pid).map fun space => space.write page offset (payload.take size.toNat)) }
  | .getBytes _ _ _ _ => t

def Twin.step (t : Twin) (op : Op) : Option Twin := some (t.apply op)

/-- The access lies within a page of the process. -/
def Twin.Access (t : Twin) (pid page offset size : Int) : Prop :=
  ∃ space, t.spaces pid = some space ∧ 0 ≤ page ∧ page < space.pages ∧ 0 ≤ offset ∧ 0 < size
    ∧ offset + size ≤ t.server.marcoSize

/-- The operations the clients may perform: pages are requested only by a
    process that owns none, accesses lie within a page, and a payload is as long
    as it is said to be. -/
def Op.Valid (t : Twin) : Op → Prop
  | .setPages pid _ => 0 < pid → ∀ row ∈ t.server.pageTable, row.pid ≠ pid
  | .clearPages _ => True
  | .setBytes pid page offset size payload _ =>
      t.Access pid page offset size ∧ size ≤ payload.length
  | .getBytes pid page offset size => t.Access pid page offset size

/-- The server and the spaces hold the same bytes. -/
structure Twin.Agrees (t : Twin) : Prop where
  rows : TableOk t.server.pageTable
  free : ∀ pid, 0 < pid → t.spaces pid = none → ∀ row ∈ t.server.pageTable, row.pid ≠ pid
  owner : ∀ pid space, t.spaces pid = some space → 0 < pid
  pages : ∀ pid space, t.spaces pid = some space →
    ∀ page, page ∈ pagesOf t.server.pageTable pid ↔ 0 ≤ page ∧ page < space.pages
  cells : ∀ pid space, t.spaces pid = some space → ∀ page offset : Int, 0 ≤ page → page < space.pages →
    0 ≤ offset → offset < t.server.marcoSize →
    frameContents t.server pid page offset = space.cell page offset

theorem mem_pagesOf_iff_marks (table : PageTable) (pid page : Int) :
    page ∈ pagesOf table pid ↔ true ∈ marks table pid page := by
  simp only [pagesOf, marks, List.mem_filterMap, List.mem_map, Option.ite_none_right_eq_some,
    Option.some.injEq, Bool.and_eq_true, beq_iff_eq]

/-- In agreement, a page of a space is in a frame that the table maps to it. -/
theorem agrees_frame (t : Twin) (h : t.Agrees) (pid page : Int) (space : Space)
    (hspace : t.spaces pid = some space) (hlo : 0 ≤ page) (hhi : page < space.pages) :
    ∃ i : Nat, getFrame t.server.pageTable pid page = i ∧ Mapped t.server.pageTable pid page i := by
  have hmem := (h.pages pid space hspace page).mpr ⟨hlo, hhi⟩
  rcases (mem_pagesOf _ _ _).mp hmem with ⟨i, hi⟩
  have hmapped : Mapped t.server.pageTable pid page i := ⟨h.owner pid space hspace, hi⟩
  have hbounds := mapped_bounds _ h.rows _ _ _ hmapped
  exact getFrame_of_mapped _ _ _ i hmapped hbounds.1 hbounds.2

/-- What a store does to a page, its own or another. -/
theorem frameContents_storeBytes (t : Twin) (h : t.Agrees) (pid page offset size : Int)
    (data : Buf) (hacc : t.Access pid page offset size) (q page' : Int) (space : Space)
    (hspace : t.spaces q = some space) (hlo : 0 ≤ page') (hhi : page' < space.pages) (o : Int)
    (ho : 0 ≤ o) (ho' : o < t.server.marcoSize) :
    frameContents (storeBytes t.server pid page offset size data) q page' o
      = if (q = pid ∧ page' = page) ∧ offset ≤ o ∧ o < offset + size then data (o - offset)
        else frameContents t.server q page' o := by
  rcases hacc with ⟨mine, hmine, hplo, hphi, hoff, hsize, hfit⟩
  rcases agrees_frame t h pid page mine hmine hplo hphi with ⟨i, hi, hmapi⟩
  rcases agrees_frame t h q page' space hspace hlo hhi with ⟨j, hj, hmapj⟩
  simp only [frameContents, storeBytes, setBytes_apply _ _ _ _ _ _ hoff hsize, hi, hj]
  by_cases hsame : (j : Int) = i
  · -- The frame stored into: it holds this page and no other.
    have hji : j = i := Int.ofNat_inj.mp hsame
    rw [hji] at hmapj
    rcases mapped_inj _ _ _ _ _ _ hmapj hmapi with ⟨hq, hp⟩
    rw [hsame]
    by_cases hin : offset ≤ o ∧ o < offset + size
    · rw [if_pos (by omega), if_pos ⟨⟨hq, hp⟩, hin⟩]
      congr 1
      omega
    · rw [if_neg (by omega), if_neg (fun hc => hin hc.2)]
  · -- Another frame, none of whose cells is in the range.
    have hother : ¬ (q = pid ∧ page' = page) := by
      intro hc
      rw [hc.1, hc.2, hi] at hj
      exact hsame hj.symm
    have hout : ¬ ((i : Int) * t.server.marcoSize + offset ≤ j * t.server.marcoSize + o
        ∧ (j : Int) * t.server.marcoSize + o < i * t.server.marcoSize + offset + size) := by
      intro hc
      refine hsame (frame_cell_inj t.server.marcoSize j i o
        ((j : Int) * t.server.marcoSize + o - i * t.server.marcoSize) ⟨ho, ho'⟩ ?_ ?_)
      · omega
      · omega
    rw [if_neg hout, if_neg (fun hc => hother hc.1)]

theorem agrees_setPages (t : Twin) (pid pages : Int) (h : t.Agrees)
    (hvalid : Op.Valid t (.setPages pid pages)) : (t.apply (.setPages pid pages)).Agrees := by
  by_cases hres : (setPages t.server.pageTable pid pages).2 = 0
  · have hsame : t.apply (.setPages pid pages) = t := by
      simp only [Twin.apply, if_pos hres, setPages_refused _ _ _ hres]
    rw [hsame]
    exact h
  · rcases setPages_granted _ _ _ hres with ⟨hpos, hpages, hfree, htable⟩
    have hnone := hvalid hpos
    refine ⟨tableOk_setPages _ _ _ h.rows, ?_, ?_, ?_, ?_⟩
    -- The rows that change get an owner that has a space.
    · intro q hq hspace row hrow
      simp only [Twin.apply, if_neg hres] at hspace hrow
      have hne : q ≠ pid := by
        intro hc
        rw [hc, Function.update_self] at hspace
        exact absurd hspace (by simp only [reduceCtorEq, not_false_eq_true])
      rw [Function.update_of_ne hne] at hspace
      rw [htable] at hrow
      rcases mem_assignPages _ _ _ _ hrow with hold | ⟨hnew, _, _⟩
      · exact h.free q hq hspace row hold
      · rw [hnew]
        exact Ne.symm hne
    · intro q space hspace
      simp only [Twin.apply, if_neg hres] at hspace
      by_cases hq : q = pid
      · rw [hq]
        exact hpos
      · rw [Function.update_of_ne hq] at hspace
        exact h.owner q space hspace
    · intro q space hspace page
      simp only [Twin.apply, if_neg hres] at hspace ⊢
      by_cases hq : q = pid
      · rw [hq, Function.update_self, Option.some.injEq] at hspace
        rw [hq, htable, pagesOf_assignPages_self pid _ _ hnone (by omega), mem_countdown, ← hspace]
      · rw [Function.update_of_ne hq] at hspace
        have hqpos := h.owner q space hspace
        rw [mem_pagesOf_iff_marks, marks_setPages_of_ne _ _ _ _ hq (by omega),
          ← mem_pagesOf_iff_marks]
        exact h.pages q space hspace page
    · intro q space hspace page offset hplo hphi holo hohi
      simp only [Twin.apply, if_neg hres] at hspace ⊢
      by_cases hq : q = pid
      · rw [hq, Function.update_self, Option.some.injEq] at hspace
        rw [hq, ← hspace]
      · rw [Function.update_of_ne hq] at hspace
        have hqpos := h.owner q space hspace
        have hcell := h.cells q space hspace page offset hplo hphi holo hohi
        rw [frameContents] at hcell ⊢
        rwa [getFrame_congr _ _ _ _ (marks_setPages_of_ne pid q page pages hq (by omega) _)]

theorem agrees_clearPages (t : Twin) (pid : Int) (h : t.Agrees) :
    (t.apply (.clearPages pid)).Agrees := by
  by_cases hpid : pid ≤ 0
  · have hsame : t.apply (.clearPages pid) = t := by
      simp only [Twin.apply, clearPages, if_pos hpid, if_true]
    rw [hsame]
    exact h
  · have hres : ¬ (clearPages t.server.pageTable pid).2 = 0 := by
      rw [clearPages, if_neg hpid]
      exact Int.one_ne_zero
    -- A process other than the cleared one keeps its space, and its marks.
    have hkeep : ∀ q space, (t.apply (.clearPages pid)).spaces q = some space →
        q ≠ pid ∧ t.spaces q = some space := by
      intro q space hspace
      simp only [Twin.apply, if_neg hres] at hspace
      by_cases hq : q = pid
      · rw [hq, Function.update_self] at hspace
        exact absurd hspace (by simp only [reduceCtorEq, not_false_eq_true])
      · rw [Function.update_of_ne hq] at hspace
        exact ⟨hq, hspace⟩
    refine ⟨tableOk_clearPages _ _ h.rows, ?_, ?_, ?_, ?_⟩
    · intro q hq hspace row hrow
      by_cases hqp : q = pid
      · rw [hqp]
        exact clearPages_none _ _ (by omega) row hrow
      · simp only [Twin.apply, if_neg hres, Function.update_of_ne hqp] at hspace
        simp only [Twin.apply, clearPages, if_neg hpid] at hrow
        rcases List.mem_map.mp hrow with ⟨old, hold, heq⟩
        rw [← heq]
        split
        · show (0 : Int) ≠ q
          omega
        · exact h.free q hq hspace old hold
    · intro q space hspace
      exact h.owner q space (hkeep q space hspace).2
    · intro q space hspace page
      rcases hkeep q space hspace with ⟨hq, hold⟩
      have hqpos := h.owner q space hold
      rw [mem_pagesOf_iff_marks]
      simp only [Twin.apply]
      rw [marks_clearPages_of_ne _ _ _ hq (by omega), ← mem_pagesOf_iff_marks]
      exact h.pages q space hold page
    · intro q space hspace page offset hplo hphi holo hohi
      rcases hkeep q space hspace with ⟨hq, hold⟩
      have hqpos := h.owner q space hold
      have hcell := h.cells q space hold page offset hplo hphi holo hohi
      simp only [frameContents, Twin.apply] at hcell ⊢
      rwa [getFrame_congr _ _ _ _ (marks_clearPages_of_ne pid q page hq (by omega) _)]

/-- The spaces after a store: the storing process's own has changed bytes, but
    as many pages as before. -/
theorem spaces_setBytes (t : Twin) (pid page offset size : Int) (payload : List UInt8) (heap : Buf)
    (q : Int) (space : Space)
    (hspace : (t.apply (.setBytes pid page offset size payload heap)).spaces q = some space) :
    ∃ old, t.spaces q = some old ∧ space
      = if q = pid then old.write page offset (payload.take size.toNat) else old := by
  simp only [Twin.apply] at hspace
  by_cases hq : q = pid
  · rw [hq, Function.update_self] at hspace
    rcases Option.map_eq_some_iff.mp hspace with ⟨old, hold, heq⟩
    exact ⟨old, hq ▸ hold, by rw [if_pos hq, heq]⟩
  · rw [Function.update_of_ne hq] at hspace
    exact ⟨space, hspace, by rw [if_neg hq]⟩

theorem agrees_setBytes (t : Twin) (pid page offset size : Int) (payload : List UInt8) (heap : Buf)
    (h : t.Agrees) (hvalid : Op.Valid t (.setBytes pid page offset size payload heap)) :
    (t.apply (.setBytes pid page offset size payload heap)).Agrees := by
  rcases hvalid with ⟨hacc, hlong⟩
  refine ⟨h.rows, ?_, ?_, ?_, ?_⟩
  · -- A process without a space has none afterwards.
    intro q hq hspace
    refine h.free q hq ?_
    simp only [Twin.apply] at hspace
    by_cases hqp : q = pid
    · rw [hqp, Function.update_self, Option.map_eq_none_iff] at hspace
      rw [hqp]
      exact hspace
    · rwa [Function.update_of_ne hqp] at hspace
  · intro q space hspace
    rcases spaces_setBytes t _ _ _ _ _ _ q space hspace with ⟨old, hold, _⟩
    exact h.owner q old hold
  · -- The number of pages does not change.
    intro q space hspace page'
    rcases spaces_setBytes t _ _ _ _ _ _ q space hspace with ⟨old, hold, heq⟩
    have hsame : space.pages = old.pages := by
      rw [heq]
      split <;> rfl
    rw [hsame]
    exact h.pages q old hold page'
  · intro q space hspace page' o hplo hphi holo hohi
    rcases spaces_setBytes t _ _ _ _ _ _ q space hspace with ⟨old, hold, heq⟩
    have hsame : space.pages = old.pages := by
      rw [heq]
      split <;> rfl
    rw [hsame] at hphi
    have hcell := h.cells q old hold page' o hplo hphi holo hohi
    have hstore := frameContents_storeBytes t h pid page offset size (Cells.write heap 0 payload)
      hacc q page' old hold hplo hphi o holo hohi
    simp only [Twin.apply]
    rw [hstore, hcell, heq]
    rcases hacc with ⟨_, _, _, _, hoff, hsize, _⟩
    -- Only the space of `pid` is written to, and in it only `page`.
    by_cases hq : q = pid
    · rw [if_pos hq, Space.write]
      by_cases hp : page' = page
      · -- The page stored into, byte by byte.
        have hlen : (payload.take size.toNat).length = size.toNat := by
          rw [List.length_take]
          omega
        simp only [hp, Function.update_self, write_apply, hlen, hq, and_self, true_and]
        by_cases hin : offset ≤ o ∧ o < offset + size
        · rw [if_pos hin, if_pos (by omega), if_pos (by omega), Int.sub_zero,
            List.getD_eq_getElem?_getD, List.getD_eq_getElem?_getD, List.getElem?_take,
            if_pos (by omega), List.getElem?_eq_getElem (by omega)]
          rfl
        · rw [if_neg hin, if_neg (by omega)]
      · rw [if_neg (fun hc => hp hc.1.2)]
        simp only [Function.update_of_ne hp]
    · rw [if_neg (fun hc => hq hc.1.1), if_neg hq]

/-- Every valid operation keeps the server and the spaces in agreement. -/
theorem agrees_step (t t' : Twin) (op : Op) (h : t.Agrees) (hvalid : Op.Valid t op)
    (hstep : t.step op = some t') : t'.Agrees := by
  rw [Twin.step, Option.some.injEq] at hstep
  rw [← hstep]
  cases op with
  | setPages pid pages => exact agrees_setPages t pid pages h hvalid
  | clearPages pid => exact agrees_clearPages t pid h
  | setBytes pid page offset size payload heap =>
      exact agrees_setBytes t pid page offset size payload heap h hvalid
  | getBytes pid page offset size => exact h

theorem agrees_init (marcoSize : Int) (marcos : Nat) (main : Buf) :
    (Twin.init marcoSize marcos main).Agrees := by
  have hnone : ∀ (pid : Int) (space : Space),
      (Twin.init marcoSize marcos main).spaces pid ≠ some space := by
    intro pid space hc
    exact absurd hc (by simp only [Twin.init, reduceCtorEq, not_false_eq_true])
  refine ⟨fun row hrow => ?_, fun pid hpid _ row hrow => ?_, fun pid space hs => ?_,
    fun pid space hs => ?_, fun pid space hs => ?_⟩
  · rw [List.eq_of_mem_replicate hrow]
    exact Or.inl rfl
  · rw [List.eq_of_mem_replicate hrow]
    show (0 : Int) ≠ pid
    omega
  · exact absurd hs (hnone pid space)
  · exact absurd hs (hnone pid space)
  · exact absurd hs (hnone pid space)

/-- In agreement, what a process reads is what its space holds. -/
theorem readBytes_of_agrees (t : Twin) (h : t.Agrees) (data : Buf) (pid page offset size : Int)
    (space : Space) (hspace : t.spaces pid = some space)
    (hacc : t.Access pid page offset size) :
    readBytes t.server data pid page offset size = space.read page offset size.toNat := by
  rcases hacc with ⟨mine, hmine, hplo, hphi, hoff, hsize, hfit⟩
  rw [hspace, Option.some.injEq] at hmine
  rw [← hmine] at hphi
  rw [readBytes, getBytes_slice _ _ _ _ _ _ hoff hsize, Space.read]
  refine slice_congr _ _ _ _ _ fun k hk => ?_
  have hcell := h.cells pid space hspace page (offset + k) hplo hphi (by omega) (by omega)
  rw [frameContents, ← Int.add_assoc] at hcell
  exact hcell

/-- An operation of one process does not touch the space of another. -/
theorem spaces_apply_of_ne (t : Twin) (op : Op) (q : Int) (hne : op.pid ≠ q) :
    (t.apply op).spaces q = t.spaces q := by
  have hupdate : ∀ v, Function.update t.spaces op.pid v q = t.spaces q :=
    fun v => Function.update_of_ne (Ne.symm hne) v t.spaces
  cases op with
  | setPages pid pages =>
      simp only [Twin.apply]
      split
      · rfl
      · exact hupdate _
  | clearPages pid =>
      simp only [Twin.apply]
      split
      · rfl
      · exact hupdate _
  | setBytes pid page offset size payload heap => exact hupdate _
  | getBytes pid page offset size => rfl

theorem marcoSize_apply (t : Twin) (op : Op) :
    (t.apply op).server.marcoSize = t.server.marcoSize := by
  cases op <;> rfl

/-- The memory server refines one private array of pages per process. After any
    run of valid operations, every valid read of a process returns what its
    space holds; and whatever valid operation another process performs next, the
    read returns the same. -/
theorem server_refines_spaces (marcoSize : Int) (marcos : Nat) (main : Buf) (ops : List Op)
    (t : Twin) (hvalid : Along Twin.step Op.Valid (Twin.init marcoSize marcos main) ops)
    (hrun : run Twin.step (Twin.init marcoSize marcos main) ops = some t)
    (data : Buf) (pid page offset size : Int) (hacc : t.Access pid page offset size) :
    (∃ space, t.spaces pid = some space
        ∧ readBytes t.server data pid page offset size = space.read page offset size.toNat)
      ∧ ∀ op : Op, op.pid ≠ pid → Op.Valid t op →
        readBytes (t.apply op).server data pid page offset size
          = readBytes t.server data pid page offset size := by
  have hagree : t.Agrees :=
    run_invariant_along Twin.step Op.Valid Twin.Agrees
      (fun s op u hs hok hstep => agrees_step s u op hs hok hstep)
      _ t ops (agrees_init marcoSize marcos main) hvalid hrun
  rcases hacc with ⟨space, hspace, hbounds⟩
  have hread := readBytes_of_agrees t hagree data pid page offset size space hspace
    ⟨space, hspace, hbounds⟩
  refine ⟨⟨space, hspace, hread⟩, fun op hne hop => ?_⟩
  have hnext := agrees_step t (t.apply op) op hagree hop rfl
  have hspace' : (t.apply op).spaces pid = some space := by
    rw [spaces_apply_of_ne t op pid hne, hspace]
  have hread' := readBytes_of_agrees (t.apply op) hnext data pid page offset size space hspace'
    ⟨space, hspace', by rw [marcoSize_apply]; exact hbounds⟩
  rw [hread', hread]

/-- Two processes of one page each, the second of which has stored two bytes. -/
def sampleOps : List Op :=
  [.setPages 1 1, .setPages 2 1, .setBytes 2 0 1 2 [7, 8] fun _ => 0]

def sampleTwin : Twin := sampleOps.foldl Twin.apply (Twin.init 4 2 fun _ => 0)

theorem sampleTwin_refines :
    (∃ space, sampleTwin.spaces 2 = some space
        ∧ readBytes sampleTwin.server (fun _ => 0) 2 0 1 2 = space.read 0 1 2)
      ∧ ∀ op : Op, op.pid ≠ 2 → Op.Valid sampleTwin op →
        readBytes (sampleTwin.apply op).server (fun _ => 0) 2 0 1 2
          = readBytes sampleTwin.server (fun _ => 0) 2 0 1 2 := by
  refine server_refines_spaces 4 2 (fun _ => 0) sampleOps sampleTwin ?_ rfl _ 2 0 1 2 ?_
  · simp only [sampleOps, Along, Twin.step, Option.some.injEq, forall_eq', and_true]
    refine ⟨?_, ?_, ⟨⟨_, rfl, ?_⟩, ?_⟩⟩
    · show (0 : Int) < 1 → ∀ row ∈ getPageTable 2, row.pid ≠ 1
      decide
    · show (0 : Int) < 2 → ∀ row ∈ (setPages (getPageTable 2) 1 1).1, row.pid ≠ 2
      decide
    · show (0 : Int) ≤ 0 ∧ (0 : Int) < 1 ∧ (0 : Int) ≤ 1 ∧ (0 : Int) < 2 ∧ (1 : Int) + 2 ≤ 4
      decide
    · decide
  · refine ⟨_, rfl, ?_⟩
    show (0 : Int) ≤ 0 ∧ (0 : Int) < 1 ∧ (0 : Int) ≤ 1 ∧ (0 : Int) < 2 ∧ (1 : Int) + 2 ≤ 4
    decide

end Memoria

end Esther
