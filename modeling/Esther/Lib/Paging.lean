import Mathlib.Tactic.Ring

/-!
# Paging

Addresses that are split into a page and an offset, and put into the frame of the page.

An aligned word, of a size that divides the size of a page, does not cross the end of its
page. So it lies in one frame as a whole, and aligned words at different addresses lie apart
as long as different pages are in different frames.

## Main definitions

* `place`: Where an address is.

## Theorems

* `word_fits`: An aligned word ends in the page it begins in.
* `place_apart`: Aligned words at different addresses.
* `place_inside`: An aligned word and its frame.
-/

namespace Paging

/-- Where an address is, when `frame` says where the pages are. -/
def place (frame : Int → Int) (size address : Int) : Int :=
  frame (address / size) * size + address % size

/-- The offset of an aligned address is aligned. -/
theorem offset_aligned (size word address : Int) (hdiv : word ∣ size) (haddress : word ∣ address) :
    word ∣ address % size := by
  refine Int.dvd_of_emod_eq_zero ?_
  rw [Int.emod_emod_of_dvd address hdiv]
  exact Int.emod_eq_zero_of_dvd haddress

/-- Of two aligned numbers the smaller is smaller by a word. -/
theorem aligned_lt (word a b : Int) (hword : 0 < word) (ha : word ∣ a) (hb : word ∣ b)
    (hlt : a < b) : a + word ≤ b := by
  rcases ha with ⟨m, rfl⟩
  rcases hb with ⟨n, rfl⟩
  have hmn : m < n := Int.lt_of_mul_lt_mul_left hlt (Int.le_of_lt hword)
  calc word * m + word = word * (m + 1) := by ring
    _ ≤ word * n := Int.mul_le_mul_of_nonneg_left hmn (Int.le_of_lt hword)

theorem word_fits (size word address : Int) (hword : 0 < word) (hsize : 0 < size)
    (hdiv : word ∣ size) (haddress : word ∣ address) : address % size + word ≤ size :=
  aligned_lt word _ _ hword (offset_aligned size word address hdiv haddress) hdiv
    (Int.emod_lt_of_pos address hsize)

/-- What is below the end of a frame is before every later one. -/
theorem frame_lt (size i j o o' : Int) (hsize : 0 < size) (hlt : i < j) (ho : o ≤ size)
    (ho' : 0 ≤ o') : i * size + o ≤ j * size + o' := by
  have hnext : (i + 1) * size ≤ j * size := Int.mul_le_mul_of_nonneg_right hlt (Int.le_of_lt hsize)
  rw [Int.add_mul, Int.one_mul] at hnext
  omega

/-- Aligned words at different addresses lie apart. -/
theorem place_apart (frame : Int → Int) (size word a b : Int) (hword : 0 < word)
    (hsize : 0 < size) (hdiv : word ∣ size) (ha : word ∣ a) (hb : word ∣ b) (hne : a ≠ b)
    (hinj : frame (a / size) = frame (b / size) → a / size = b / size) :
    place frame size a + word ≤ place frame size b ∨
      place frame size b + word ≤ place frame size a := by
  have hfit := word_fits size word a hword hsize hdiv ha
  have hfit' := word_fits size word b hword hsize hdiv hb
  have hlo := Int.emod_nonneg a (Int.ne_of_gt hsize)
  have hlo' := Int.emod_nonneg b (Int.ne_of_gt hsize)
  unfold place
  -- In different frames the order of the frames decides.
  rcases lt_trichotomy (frame (a / size)) (frame (b / size)) with hlt | heq | hgt
  · have hbelow := frame_lt size _ _ _ _ hsize hlt hfit hlo'
    exact .inl (by omega)
  · -- The same frame, hence the same page, and the offsets differ.
    have hpage := hinj heq
    have hoffset : a % size ≠ b % size := by
      intro hc
      refine hne ?_
      rw [← Int.mul_ediv_add_emod a size, ← Int.mul_ediv_add_emod b size, hpage, hc]
    rw [heq]
    have haligned := offset_aligned size word a hdiv ha
    have haligned' := offset_aligned size word b hdiv hb
    rcases lt_or_gt_of_ne hoffset with hlt | hgt
    · have hstep := aligned_lt word _ _ hword haligned haligned' hlt
      exact .inl (by omega)
    · have hstep := aligned_lt word _ _ hword haligned' haligned hgt
      exact .inr (by omega)
  · have hbelow := frame_lt size _ _ _ _ hsize hgt hfit' hlo
    exact .inr (by omega)

/-- An aligned word lies in the frame of its page. -/
theorem place_inside (frame : Int → Int) (size word a k : Int) (hword : 0 < word)
    (hsize : 0 < size) (hdiv : word ∣ size) (ha : word ∣ a) (hlo : 0 ≤ k) (hhi : k < word) :
    frame (a / size) * size ≤ place frame size a + k ∧
      place frame size a + k < (frame (a / size) + 1) * size := by
  have hfit := word_fits size word a hword hsize hdiv ha
  have hoffset := Int.emod_nonneg a (Int.ne_of_gt hsize)
  unfold place
  rw [Int.add_mul, Int.one_mul]
  omega

end Paging
