import Esther.Core.Structures
import Esther.Lib.Cells

/-!
# The Page Table

`page_table.c`: the inverted page table of the memory server and the two copying
functions that work on main memory.

A row describes a frame: the process that owns it and which of its pages the
frame holds. The table is one array of integers with `COLS` of them to a row,
of which the third is never touched; a row is free when its process is zero.
`page_rows` is the number of rows.

Every function reports failure by returning zero. For `getFrame` zero is also
the number of a frame, and its callers do not tell the two apart.

## Main definitions

* `Row`, `PageTable`: A frame's owner, and the table.
* `setPages`, `clearPages`, `getFrame`: The operations on the table.
* `getBytes`, `setBytes`: The operations on main memory.
* `accessed`: The cells of main memory the latter two touch.
* `PageTableOp`, `PageTableOp.apply`: A call of one of the two functions that
  change the table.
* `ReachableTable`: The tables such calls lead to.
-/

namespace Esther

namespace Memoria

open Cells

/-- The first two columns of a row. -/
@[ext] structure Row where
  pid : Int
  page : Int
deriving DecidableEq, Repr

/-- The rows in use, `page_rows` of them. -/
abbrev PageTable := List Row

/-- `get_page_table`: every row zero. -/
def getPageTable (rows : Nat) : PageTable := List.replicate rows { pid := 0, page := 0 }

/-- How many rows are free. -/
def freeRows (table : PageTable) : Nat := table.countP fun row => row.pid == 0

/-- The assigning loop of `set_pages`. Page numbers count down as the frames
    count up. -/
def assignPages (pid : Int) : PageTable → Nat → PageTable
  | [], _ => []
  | row :: table, 0 => row :: table
  | row :: table, pages + 1 =>
      if row.pid == 0 then { pid := pid, page := pages } :: assignPages pid table pages
      else row :: assignPages pid table (pages + 1)

/-- `set_pages`: the table afterwards, and the result. -/
def setPages (table : PageTable) (pid pages : Int) : PageTable × Int :=
  if pid ≤ 0 then (table, 0)
  else if pages ≤ 0 then (table, 0)
  else if (freeRows table : Int) < pages then (table, 0)
  else (assignPages pid table pages.toNat, 1)

/-- `clear_pages`. -/
def clearPages (table : PageTable) (pid : Int) : PageTable × Int :=
  if pid ≤ 0 then (table, 0)
  else (table.map fun row => if row.pid == pid then { pid := 0, page := 0 } else row, 1)

/-- `get_frame`: the first row for the page, or zero. -/
def getFrame (table : PageTable) (pid page : Int) : Int :=
  if pid ≤ 0 then 0
  else if page < 0 then 0
  else if (table.length : Int) ≤ page then 0
  else match table.findIdx? fun row => row.pid == pid && row.page == page with
    | some i => i
    | none => 0

/-- `get_bytes`: `data` afterwards, and the result. -/
def getBytes (marcoSize : Int) (mainMemory : Buf) (frame offset size : Int) (data : Buf) :
    Buf × Int :=
  if offset < 0 then (data, 0)
  else if size ≤ 0 then (data, 0)
  else
    let base := frame * marcoSize + offset
    (copy data mainMemory 0 base size.toNat, 1)

/-- `set_bytes`: main memory afterwards, and the result. -/
def setBytes (marcoSize : Int) (mainMemory : Buf) (frame offset size : Int) (data : Buf) :
    Buf × Int :=
  if offset < 0 then (mainMemory, 0)
  else if size ≤ 0 then (mainMemory, 0)
  else
    let base := frame * marcoSize + offset
    (copy mainMemory data base 0 size.toNat, 1)

/-- The cells of main memory that the loops of `getBytes` and `setBytes`
    visit, in order. -/
def accessed (marcoSize frame offset size : Int) : List Int :=
  if offset < 0 then []
  else if size ≤ 0 then []
  else span (frame * marcoSize + offset) size.toNat

/-- A call that may change the table. -/
inductive PageTableOp
  | setPages (pid pages : Int)
  | clearPages (pid : Int)
deriving DecidableEq, Repr

def PageTableOp.apply (table : PageTable) : PageTableOp → PageTable
  | .setPages pid pages => (Memoria.setPages table pid pages).1
  | .clearPages pid => (Memoria.clearPages table pid).1

/-- The tables the calls of a run leave behind, from the one of `getPageTable`
    on. -/
def ReachableTable (table : PageTable) : Prop :=
  ∃ rows ops, table = List.foldl PageTableOp.apply (getPageTable rows) ops

end Memoria

end Esther
